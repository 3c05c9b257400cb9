import CommandSuite.Core.Objectives
import CommandSuite.Library.Refresh

/-! # The snapshots of the runner

`packages/cli/src/runtime/objectives-tracker.ts`, and the refreshers of `runner.ts`: what the runner keeps of the open
objectives and of the external tools. The instructions are also refreshed for a restart, which sets the tools as well.
-/

namespace CommandSuite.Snapshots

open Library Objectives Refresh Transcript

structure InstructionsResponse (T R : Type) where
  toolSources : List T
  rest : R

structure Broker (T R : Type) where
  objectives : List Objective
  instructions : InstructionsResponse T R

section Runner

variable {T R : Type}

def listObjectives (broker : Broker T R) (assignee : String) (status : ObjectiveStatus) : List Objective :=
  broker.objectives.filter fun objective => objective.assignee = assignee && objective.status = status

def openFor (broker : Broker T R) (name : String) : List Objective :=
  listObjectives broker name .active ++ listObjectives broker name .blocked

/-- The timer, the fetch in flight and the snapshot of the tracker are a cache, and so are those of the tools. The other fetches of the
tools are those of `refreshInstructions`. -/
structure Runner (T R : Type) where
  name : String
  captured : Bool
  openObjectives : Cache (List Objective)
  externalTools : Cache (List T)
  instructions : InstructionsResponse T R

inductive Note where
  | noteObjectiveOpen (id : String)
  | noteObjectiveClose (id : String)
  | toolsListChanged
  deriving DecidableEq

def refresh (message : Message) (moment : Nat) (tracker : Cache (List Objective)) : Cache (List Objective) :=
  if (message.data.get "kind").bind Json.asString = some "objective" then tracker.announce moment else tracker

def assembleObjectives : List (List Objective × List Objective) → List Objective
  | [first, second] => first.1 ++ second.2
  | _ => []

def assembleTools : List (List T) → List T
  | [tools] => tools
  | _ => []

def onRefresh (captured : Bool) (previous next : List Objective) : List Note :=
  if captured then
    (((next.map Objective.id).eraseDups.filter fun id => id ∉ previous.map Objective.id).map .noteObjectiveOpen) ++
      (((previous.map Objective.id).eraseDups.filter fun id => id ∉ next.map Objective.id).map .noteObjectiveClose)
  else []

/-! ## The runner and the broker -/

structure World (T R : Type) where
  history : List (Broker T R)
  runner : Runner T R

def World.now (world : World T R) : Nat := world.history.length - 1

def plates (name : String) (history : List (Broker T R)) : List (List Objective × List Objective) :=
  history.map fun broker => (listObjectives broker name .active, listObjectives broker name .blocked)

def toolboxes (history : List (Broker T R)) : List (List T) := history.map fun broker => broker.instructions.toolSources

/-- An event tells of a moment up to now. A fetch of the tracker has two parts, and one of the instructions one. -/
inductive Input (T R : Type) where
  | change (broker : Broker T R)
  | objectiveEvent (message : Message) (moment : Nat)
  | toolSourceEvent (moment : Nat)
  | objectivesTimer
  | toolsTimer
  | refreshInstructions
  | objectivesAnswered (part : Nat)
  | toolsAnswered (slot : Slot)
  | objectivesFetched
  | toolsFetched (slot : Slot)
  | objectivesFailed
  | toolsFailed (slot : Slot)

def fetchObjectives (world : World T R) : World T R × List Note :=
  let tracker := world.runner.openObjectives
  let after := tracker.complete assembleObjectives (plates world.runner.name world.history) .own
  ({ world with runner := { world.runner with openObjectives := after } },
    if (tracker.inflight.bind (Cache.fetched (plates world.runner.name world.history))).isSome then
      onRefresh world.runner.captured tracker.held after.held
    else [])

/-- `refreshExternalTools` and `refreshInstructions` after their answers. Equal tools are equal as JSON. -/
def fetchTools [DecidableEq T] (slot : Slot) (world : World T R) : World T R × List Note :=
  let tools := world.runner.externalTools
  let after := tools.complete assembleTools (toolboxes world.history) slot
  let fresh := ((tools.fetchAt slot).bind (Cache.fetched (world.history.map Broker.instructions))).bind List.head?
  ({ world with
      runner := { world.runner with
        externalTools := after
        instructions := if slot = .own then world.runner.instructions else fresh.getD world.runner.instructions } },
    if after.held = tools.held then [] else [.toolsListChanged])

def next [DecidableEq T] : Machine (World T R) (Input T R) (List Note) := fun world input =>
  let runner := world.runner
  match input with
  | .change broker => ({ world with history := world.history ++ [broker] }, [])
  | .objectiveEvent message moment =>
    ({ world with runner := { runner with openObjectives := refresh message (min moment world.now) runner.openObjectives } }, [])
  | .toolSourceEvent moment =>
    ({ world with runner := { runner with externalTools := runner.externalTools.announce (min moment world.now) } }, [])
  | .objectivesTimer => ({ world with runner := { runner with openObjectives := runner.openObjectives.fire 2 } }, [])
  | .toolsTimer => ({ world with runner := { runner with externalTools := runner.externalTools.fire 1 } }, [])
  | .refreshInstructions => ({ world with runner := { runner with externalTools := runner.externalTools.start 1 } }, [])
  | .objectivesAnswered part =>
    ({ world with runner := { runner with openObjectives := runner.openObjectives.answer world.now part .own } }, [])
  | .toolsAnswered slot =>
    ({ world with runner := { runner with externalTools := runner.externalTools.answer world.now 0 slot } }, [])
  | .objectivesFetched => fetchObjectives world
  | .toolsFetched slot => fetchTools slot world
  | .objectivesFailed => ({ world with runner := { runner with openObjectives := runner.openObjectives.remove .own } }, [])
  | .toolsFailed slot => ({ world with runner := { runner with externalTools := runner.externalTools.remove slot } }, [])

end Runner

/-! ## What is asked of it -/

variable {T R : Type}

def Input.fails : Input T R → Bool
  | .objectivesFailed | .toolsFailed _ => true
  | _ => false

/-- With no timer and no fetch left each snapshot is what the broker had at a moment not before the last event about it. -/
structure Converged (world : World T R) : Prop where
  objectives : world.runner.openObjectives.timer = false → world.runner.openObjectives.fetches = [] →
    ∀ since, world.runner.openObjectives.announced = some since →
      ∃ moment broker, since ≤ moment ∧ world.history[moment]? = some broker ∧
        world.runner.openObjectives.held = openFor broker world.runner.name
  tools : world.runner.externalTools.timer = false → world.runner.externalTools.fetches = [] →
    ∀ since, world.runner.externalTools.announced = some since →
      ∃ moment broker, since ≤ moment ∧ world.history[moment]? = some broker ∧
        world.runner.externalTools.held = broker.instructions.toolSources

def together (plate : List Objective × List Objective) : List Objective := plate.1 ++ plate.2

/-- No refresh is dropped for a fetch that is behind, and no answer that is behind or torn is the last to come. -/
def Safe (world : World T R) : Input T R → Prop
  | .objectivesTimer => FiresSafely together (plates world.runner.name world.history) world.runner.openObjectives
  | .toolsTimer => FiresSafely id (toolboxes world.history) world.runner.externalTools
  | .objectivesFetched => CompletesSafely (plates world.runner.name world.history) world.runner.openObjectives .own
  | .toolsFetched slot => CompletesSafely (toolboxes world.history) world.runner.externalTools slot
  | _ => True

/-! ## Every step keeps what is held covered -/

structure Settling (name : String) (world : World T R) : Prop where
  ours : world.runner.name = name
  history : world.history ≠ []
  objectivesSound : Sound 2 (plates name world.history) world.runner.openObjectives
  objectives : Covered together (plates name world.history) world.runner.openObjectives
  toolsSound : Sound 1 (toolboxes world.history) world.runner.externalTools
  tools : Covered id (toolboxes world.history) world.runner.externalTools

theorem length_plates (name : String) (history : List (Broker T R)) : (plates name history).length = history.length := List.length_map _

theorem length_toolboxes (history : List (Broker T R)) : (toolboxes history).length = history.length := List.length_map _

theorem min_now_lt {world : World T R} (h : world.history ≠ []) (moment : Nat) : min moment world.now < world.history.length :=
  lt_of_le_of_lt (Nat.min_le_right _ _) (Nat.sub_lt (List.length_pos_iff.mpr h) Nat.one_pos)

variable {name : String} {world : World T R}

theorem settling_change (h : Settling name world) (broker : Broker T R) :
    Settling name { world with history := world.history ++ [broker] } where
  ours := h.ours
  history := List.append_ne_nil_of_right_ne_nil _ (List.cons_ne_nil _ _)
  objectivesSound := by
    rw [plates, List.map_append]
    exact h.objectivesSound.mono _
  objectives := by
    rw [plates, List.map_append]
    exact h.objectives.mono _
  toolsSound := by
    rw [toolboxes, List.map_append]
    exact h.toolsSound.mono _
  tools := by
    rw [toolboxes, List.map_append]
    exact h.tools.mono _

theorem Settling.withObjectives (h : Settling name world) {tracker : Cache (List Objective)}
    (hSound : Sound 2 (plates name world.history) tracker) (hCovered : Covered together (plates name world.history) tracker) :
    Settling name { world with runner := { world.runner with openObjectives := tracker } } :=
  ⟨h.ours, h.history, hSound, hCovered, h.toolsSound, h.tools⟩

theorem Settling.withTools (h : Settling name world) {tools : Cache (List T)} (instructions : InstructionsResponse T R)
    (hSound : Sound 1 (toolboxes world.history) tools) (hCovered : Covered id (toolboxes world.history) tools) :
    Settling name { world with runner := { world.runner with externalTools := tools, instructions } } :=
  ⟨h.ours, h.history, h.objectivesSound, h.objectives, hSound, hCovered⟩

theorem settling_next [DecidableEq T] (input : Input T R) (h : Settling name world) (hKept : input.fails = false)
    (hSafe : Safe world input) : Settling name (next world input).1 := by
  have hNowObjectives : world.now = (plates name world.history).length - 1 := by rw [length_plates]; rfl
  have hNowTools : world.now = (toolboxes world.history).length - 1 := by rw [length_toolboxes]; rfl
  have hPlates : plates name world.history ≠ [] := fun hNil => h.history (List.map_eq_nil_iff.mp hNil)
  have hToolboxes : toolboxes world.history ≠ [] := fun hNil => h.history (List.map_eq_nil_iff.mp hNil)
  cases input with
  | change broker => exact settling_change h broker
  | objectiveEvent message moment =>
    refine h.withObjectives ?_ ?_
    · unfold refresh
      split
      · exact sound_announce h.objectivesSound (by rw [length_plates]; exact min_now_lt h.history moment)
      · exact h.objectivesSound
    · unfold refresh
      split
      · exact covered_announce _ _
      · exact h.objectives
  | toolSourceEvent moment =>
    exact h.withTools _ (sound_announce h.toolsSound (by rw [length_toolboxes]; exact min_now_lt h.history moment))
      (covered_announce _ _)
  | objectivesTimer =>
    unfold Safe at hSafe
    rw [h.ours] at hSafe
    exact h.withObjectives (sound_fire h.objectivesSound) (covered_fire h.objectives hSafe)
  | toolsTimer => exact h.withTools _ (sound_fire h.toolsSound) (covered_fire h.tools hSafe)
  | refreshInstructions => exact h.withTools _ (sound_start h.toolsSound) (covered_start _ _)
  | objectivesAnswered part =>
    refine h.withObjectives (sound_answer h.objectivesSound _ _ _) ?_
    rw [hNowObjectives]
    exact covered_answer h.objectivesSound h.objectives hPlates part .own
  | toolsAnswered slot =>
    refine h.withTools _ (sound_answer h.toolsSound _ _ _) ?_
    rw [hNowTools]
    exact covered_answer h.toolsSound h.tools hToolboxes 0 slot
  | objectivesFetched =>
    unfold Safe at hSafe
    rw [h.ours] at hSafe
    change Settling name { world with runner := { world.runner with
      openObjectives := world.runner.openObjectives.complete assembleObjectives (plates world.runner.name world.history) .own } }
    rw [h.ours]
    exact h.withObjectives (sound_complete h.objectivesSound _ _)
      (covered_complete (fun _ => rfl) h.objectivesSound h.objectives .own hSafe)
  | toolsFetched slot =>
    exact h.withTools _ (sound_complete h.toolsSound _ _)
      (covered_complete (fun _ => rfl) h.toolsSound h.tools slot hSafe)
  | objectivesFailed => cases hKept
  | toolsFailed slot => cases hKept

theorem converged_of_settling (h : Settling name world) : Converged world := by
  refine ⟨fun hTimer hFetches since hSince => ?_, fun hTimer hFetches since hSince => ?_⟩
  · obtain ⟨plate, ⟨moment, hLate, hMoment⟩, hHeld⟩ := current_of_covered h.objectives hTimer hFetches hSince
    obtain ⟨broker, hBroker, rfl⟩ := List.getElem?_map ▸ hMoment |> Option.map_eq_some_iff.mp
    exact ⟨moment, broker, hLate, hBroker, by rw [h.ours]; exact hHeld⟩
  · obtain ⟨tools, ⟨moment, hLate, hMoment⟩, hHeld⟩ := current_of_covered h.tools hTimer hFetches hSince
    obtain ⟨broker, hBroker, rfl⟩ := List.getElem?_map ▸ hMoment |> Option.map_eq_some_iff.mp
    exact ⟨moment, broker, hLate, hBroker, hHeld⟩

/-! ## The snapshots converge -/

def World.start (broker : Broker T R) (name : String) (captured : Bool) (openObjectives : List Objective) (externalTools : List T) :
    World T R :=
  ⟨[broker], name, captured, .idle openObjectives, .idle externalTools, broker.instructions⟩

theorem settling_start (broker : Broker T R) (name : String) (captured : Bool) (openObjectives : List Objective) (externalTools : List T) :
    Settling name (World.start broker name captured openObjectives externalTools) where
  ours := rfl
  history := List.cons_ne_nil _ _
  objectivesSound := sound_idle _ _ _
  objectives := fun _ hNone => nomatch hNone
  toolsSound := sound_idle _ _ _
  tools := fun _ hNone => nomatch hNone

/-- While every refresh that is dropped, and every answer that is written, leaves something to come that is not behind, the snapshots
converge. -/
theorem snapshots_converge [DecidableEq T] (broker : Broker T R) (name : String) (captured : Bool) (openObjectives : List Objective)
    (externalTools : List T) (inputs : List (Input T R)) (hKept : ∀ input ∈ inputs, input.fails = false)
    (hSafe : ∀ step ∈ run next (World.start broker name captured openObjectives externalTools) inputs,
      Safe step.before step.input) :
    ∀ step ∈ run next (World.start broker name captured openObjectives externalTools) inputs, Converged step.after := by
  have hMeets : ∀ step ∈ run next (World.start broker name captured openObjectives externalTools) inputs,
      step.input.fails = false ∧ Safe step.before step.input := by
    intro step hStep
    refine ⟨hKept _ ?_, hSafe step hStep⟩
    rw [← map_input_run next (World.start broker name captured openObjectives externalTools) inputs]
    exact List.mem_map_of_mem hStep
  intro step hStep
  obtain ⟨hBefore, hAt⟩ := run_invariant_of (C := fun world input => input.fails = false ∧ Safe world input)
    (fun _ input h hC => settling_next input h hC.1 hC.2)
    (settling_start broker name captured openObjectives externalTools) hMeets step hStep
  obtain ⟨hKept, hSafe⟩ := hMeets step hStep
  rw [hAt]
  exact converged_of_settling (settling_next step.input hBefore hKept hSafe)

def team (objectives : List Objective) : Broker String Unit := ⟨objectives, ⟨["github"], ()⟩⟩

def draft : Objective := ⟨"o1", "Draft", "", "", .active, "ada", "bo", [], 0, 0, none, none, none, []⟩

def told : Message := ⟨"m1", 0, none, none, none, "", .info, [("kind", .string "objective")], []⟩

def assigned : List (Input String Unit) :=
  [.change (team [draft]), .objectiveEvent told 1, .objectivesTimer, .objectivesAnswered 0, .objectivesAnswered 1]

theorem assigned_fetched_converges :
    (final next (World.start (team []) "ada" false [] ["github"]) (assigned ++ [.objectivesFetched])).runner.openObjectives.held =
        [draft] ∧
      ∀ step ∈ run next (World.start (team []) "ada" false [] ["github"]) (assigned ++ [.objectivesFetched]),
        Converged step.after := by
  refine ⟨rfl, snapshots_converge (team []) "ada" false [] ["github"] _ (by decide) ?_⟩
  refine List.forall_mem_cons.mpr ⟨trivial, List.forall_mem_cons.mpr ⟨trivial, List.forall_mem_cons.mpr ⟨?_, ?_⟩⟩⟩
  · exact fun _ hFlight => nomatch hFlight
  · refine List.forall_mem_cons.mpr ⟨trivial, List.forall_mem_cons.mpr ⟨trivial, List.forall_mem_cons.mpr ⟨?_, fun _ hNone => nomatch hNone⟩⟩⟩
    intro fetch states hFetch hStates since hSince
    have hAsked : fetch = [some 1, some 1] := (Option.some.inj hFetch).symm
    have hTold : since = 1 := (Option.some.inj hSince).symm
    subst hAsked hTold
    refine .inl ⟨([draft], []), ⟨1, Nat.le_refl 1, rfl⟩, fun moment hMoment => ?_⟩
    obtain rfl : moment = 1 := by simpa using hMoment
    rfl

/-- The objective is completed while its fetch is in flight, and the refresh for that event is dropped. -/
def completedMeanwhile : List (Input String Unit) :=
  assigned ++ [.change (team [{ draft with status := .done }]), .objectiveEvent told 2, .objectivesTimer, .objectivesFetched]

theorem completed_objective_stays_open :
    (∀ input ∈ completedMeanwhile, input.fails = false) ∧
      ¬ Converged (final next (World.start (team []) "ada" false [] ["github"]) completedMeanwhile) := by
  refine ⟨by decide, fun h => ?_⟩
  obtain ⟨moment, broker, hLate, hBroker, hHeld⟩ := h.objectives rfl rfl 2 rfl
  change [team [], team [draft], team [{ draft with status := .done }]][moment]? = some broker at hBroker
  change [draft] = openFor broker "ada" at hHeld
  match moment, hLate with
  | 2, _ =>
    obtain rfl := Option.some.inj hBroker
    revert hHeld
    decide
  | moment + 3, _ => cases hBroker

end CommandSuite.Snapshots
