import Grizol.Analysis.ReceivedBlocks
import Grizol.Interface.GuardedServer

/-!
# The guards are held by one task each

A handler takes the guard of its file at `entry`, where it waited until that was free, and has
it until the call on the writer returns. So the table of guards always names the tasks that
are at a step of a writer. With the guards left out, every run is one of the server.
-/

set_option autoImplicit false

namespace Grizol.Analysis

open Grizol.Library Grizol.Model Grizol.Interface
open Grizol.Model.Syncthing

variable {shard : String → ℕ} {codec : Codec} {hash : String → ℕ → ℕ → UInt64}
  {sha256 : Bytes → Bytes} {debugRequest : Request → String} {config : ConnectionConfig}

/-! ## Turns -/

section Turns

variable {key : String}

/-- A handler that panics or goes on in a section holds a guard only where it goes on. -/
theorem guardKey_continueWith {α : Type} {h : ResponseHandler} {p : BepProcessor}
    {x : RustM BepProcessor α} {next : α → ResponseHandler}
    (hheld : (h.continueWith p x next).1.pc.guardKey = some key) :
    ∃ a, (next a).pc.guardKey = some key := by
  unfold ResponseHandler.continueWith at hheld
  split at hheld
  · exact ⟨_, hheld⟩
  · cases hheld

/-- The guard that a handler has after a turn it had before, or its turn took it. -/
theorem guardKey_act {h : ResponseHandler} {p : BepProcessor} {outcome : TurnOutcome}
    (hheld : (h.act hash sha256 debugRequest p outcome).1.pc.guardKey = some key) :
    h.pc.guardKey = some key ∨ h.pc.entryKey = some key := by
  unfold ResponseHandler.act at hheld
  split at hheld
  next hpc =>
    split at hheld <;> cases hheld
  next request hpc =>
    dsimp only [ResponseHandler.actFileInfo] at hheld
    repeat' split at hheld
    all_goals cases hheld
  next request fileSize blockSize hpc =>
    dsimp only [ResponseHandler.actCreateDir] at hheld
    repeat' split at hheld
    all_goals cases hheld
  next request fileSize blockSize hpc =>
    obtain ⟨w, hheld⟩ := guardKey_continueWith hheld
    rw [hpc]
    split at hheld
    · cases hheld
    · exact .inr hheld
  next request fileSize blockSize offset pc hpc =>
    rw [hpc]
    dsimp only [ResponseHandler.actWriteChunk] at hheld
    split at hheld
    · rw [hpc] at hheld
      exact .inl hheld
    · dsimp only at hheld
      split at hheld
      · rename_i result hreturned
        cases result <;> cases hheld
      · cases hheld
      · exact .inl hheld
  next request fileSize blockSize hpc =>
    obtain ⟨result, hheld⟩ := guardKey_continueWith hheld
    dsimp only at hheld
    split at hheld <;> cases hheld
  next request fileSize blockSize hpc =>
    obtain ⟨w, hheld⟩ := guardKey_continueWith hheld
    rw [hpc]
    exact .inr hheld
  next request pc hpc =>
    rw [hpc]
    dsimp only [ResponseHandler.actConsolidate] at hheld
    split at hheld
    · rw [hpc] at hheld
      exact .inl hheld
    · dsimp only at hheld
      split at hheld
      · cases hheld
      · cases hheld
      · exact .inl hheld
  next request n storageBackends copied hpc =>
    dsimp only [ResponseHandler.actCopy] at hheld
    repeat' split at hheld
    all_goals cases hheld
  next request locations hpc =>
    obtain ⟨u, hheld⟩ := guardKey_continueWith hheld
    split_ifs at hheld <;> cases hheld
  next request hpc =>
    obtain ⟨u, hheld⟩ := guardKey_continueWith hheld
    cases hheld
  next request hpc =>
    obtain ⟨u, hheld⟩ := guardKey_continueWith hheld
    cases hheld
  next stored hpc =>
    obtain ⟨u, hheld⟩ := guardKey_continueWith hheld
    cases hheld
  next result hpc => exact .inl hheld
  next fault hpc => exact .inl hheld

/-- The same for any handler. -/
theorem guardKey_handler {h : MessageHandler} {messages : List CompleteMessage}
    {s : ServerState} {outcome : TurnOutcome}
    (hheld : (MessageTask.handling (h.act hash sha256 debugRequest outcome s).1
      messages).guardKey = some key) :
    (MessageTask.handling h messages).guardKey = some key ∨
      (MessageTask.handling h messages).entryKey = some key := by
  cases h with
  | clusterConfig h =>
      dsimp only [MessageHandler.act, MessageHandler.ofClusterConfig] at hheld
      split at hheld <;> cases hheld
  | index h =>
      dsimp only [MessageHandler.act, MessageHandler.ofIndex] at hheld
      split at hheld <;> cases hheld
  | response h =>
      dsimp only [MessageHandler.act, MessageHandler.ofResponse] at hheld
      split at hheld
      · cases hheld
      · cases hheld
      · exact guardKey_act hheld
  | returned results | panicked e => cases hheld

/-- A new handler holds no guard. -/
theorem guardKey_handleCompleteMessage (clientDeviceId : DeviceId) (clock : ℕ → ℕ)
    (m : CompleteMessage) (messages : List CompleteMessage) :
    (MessageTask.handling (.handleCompleteMessage config clientDeviceId clock m)
      messages).guardKey = none := by
  cases m with
  | response x =>
      dsimp only [MessageHandler.handleCompleteMessage, MessageHandler.handleResponse]
      split
      · rfl
      · split_ifs <;> rfl
  | _ => rfl

/-- **One turn of a task** takes no guard but the one that it looks up. -/
theorem guardKey_turned {k : Connection} {input : TaskInput} {s s' : ServerState}
    {task task' : MessageTask} {queued : List GrizolEvent}
    (h : Turned hash sha256 debugRequest config k input s task task' queued s')
    (hheld : task'.guardKey = some key) : task.guardKey = some key ∨ task.entryKey = some key := by
  cases h with
  | take m messages =>
      rw [guardKey_handleCompleteMessage] at hheld
      cases hheld
  | act h messages hreturned hpanicked => exact guardKey_handler hheld
  | _ => cases hheld

end Turns

/-! ## Steps -/

section Steps

/-- A step of the server, seen from its tasks. -/
structure TasksStep (s s' : Server) (e : ServerEvent) : Prop where
  others : ∀ id, e.taskId ≠ some id → s'.task id = s.task id ∨
    s.task id = none ∧ ∃ messages, s'.task id = some (.next messages)
  turned : ∀ id, e.taskId = some id → ∃ task task', s.task id = some task ∧
    s'.task id = some task' ∧ ∀ key, task'.guardKey = some key →
      task.guardKey = some key ∨ task.entryKey = some key

/-- The tasks of one connection are replaced. -/
theorem task_update (s : Server) (state : ServerState) {c : ℕ} (k : Connection) (id : TaskId) :
    (Server.mk state (Function.update s.connections c (some k))).task id =
      if id.connection = c then k.tasks[id.task]? else s.task id := by
  unfold Server.task
  dsimp only
  split_ifs with hc
  · rw [hc, Function.update_self, Option.bind_some]
  · rw [Function.update_of_ne hc]

/-- A step of the server moves at most one task. -/
theorem tasksStep_of_step {s s' : Server} {e : ServerEvent}
    (h : serverStep codec hash sha256 debugRequest config s e = some s') : TasksStep s s' e := by
  obtain ⟨k', state, hconnection, rfl⟩ := serverStep_eq_some.mp h
  obtain ⟨c, event⟩ := e
  dsimp only at hconnection ⊢
  cases hk : s.connections c with
  | none =>
      rw [hk] at hconnection
      cases event with
      | accept d =>
          obtain ⟨rfl, rfl⟩ := Prod.mk.inj (Option.some.inj hconnection)
          refine ⟨fun id _ => .inl ?_, fun id hid => by cases hid⟩
          rw [task_update]
          split_ifs with hc
          · simp [Server.task, Connection.new, hc, hk]
          · rfl
      | _ => cases hconnection
  | some k =>
      rw [hk] at hconnection
      have htask : ∀ id : TaskId, id.connection = c → s.task id = k.tasks[id.task]? := by
        rintro id rfl
        unfold Server.task
        rw [hk, Option.bind_some]
      have hsame : ∀ {k' : Connection} {state : ServerState} {event : ConnectionEvent},
          k'.tasks = k.tasks → (∀ i input, event ≠ .turn i input) →
          TasksStep s ⟨state, Function.update s.connections c (some k')⟩ ⟨c, event⟩ := by
        intro k' state event htasks hevent
        refine ⟨fun id _ => .inl ?_, fun id hid => ?_⟩
        · rw [task_update]
          split_ifs with hc
          · rw [htasks, htask id hc]
          · rfl
        · cases event with
          | turn i input => exact absurd rfl (hevent i input)
          | _ => cases hid
      cases moved_of_stepConnection hconnection with
      | read buf p p' messages hparser hparse =>
          refine ⟨fun id _ => ?_, fun id hid => by cases hid⟩
          rw [task_update]
          split_ifs with hc
          · rw [htask id hc]
            rcases lt_trichotomy id.task k.tasks.length with hlt | heq | hgt
            · exact .inl (List.getElem?_append_left hlt)
            · right
              rw [heq]
              exact ⟨List.getElem?_eq_none le_rfl, messages, List.getElem?_concat_length⟩
            · left
              rw [List.getElem?_eq_none hgt.le, List.getElem?_eq_none]
              rw [List.length_append]
              exact hgt
          · exact .inl rfl
      | turn i input task task' queued s' htaski hturned hqueued =>
          refine ⟨fun id hid => .inl ?_, fun id hid => ?_⟩
          · rw [task_update]
            split_ifs with hc
            · have hne : i ≠ id.task := by
                rintro rfl
                exact hid (by rw [← hc]; rfl)
              rw [htask id hc]
              exact List.getElem?_set_ne hne
            · rfl
          · obtain rfl := Option.some.inj hid
            refine ⟨task, task', by rw [htask _ rfl]; exact htaski, ?_, fun key =>
              guardKey_turned hturned⟩
            rw [task_update, if_pos rfl]
            exact List.getElem?_set_self (List.getElem?_eq_some_iff.mp htaski).1
      | wrote event events requests p data outcome hevents hrequests hdata =>
          exact hsame (writeData_tasks ({ k with events := events } : Connection) data outcome).1
            (by simp)
      | _ => exact hsame rfl (by simp)

variable {s s' : GuardedServer} {e : ServerEvent}

/-- **With the guards left out, a step is one of the server.** -/
theorem serverStep_of_guarded
    (h : guardedStep shard codec hash sha256 debugRequest config s e = some s') :
    serverStep codec hash sha256 debugRequest config s.server e = some s'.server := by
  unfold guardedStep GuardedServer.step at h
  split at h
  · obtain ⟨server, hserver, rfl⟩ := Option.map_eq_some_iff.mp h
    exact hserver
  · split at h
    · cases h
    · obtain ⟨server, hserver, rfl⟩ := Option.map_eq_some_iff.mp h
      exact hserver

/-- The shard a task has after a step it had before, or was free. -/
theorem takes_of_step {id : TaskId} (hid : e.taskId = some id)
    (h : guardedStep shard codec hash sha256 debugRequest config s e = some s') {sh : ℕ}
    (hheld : GuardedServer.shardHeld shard s'.server id = some sh) :
    GuardedServer.shardHeld shard s.server id = some sh ∨ s.guards sh = none := by
  obtain ⟨task, task', htask, htask', htakes⟩ :=
    (tasksStep_of_step (serverStep_of_guarded h)).turned id hid
  unfold GuardedServer.shardHeld at hheld ⊢
  rw [htask', Option.bind_some] at hheld
  rw [htask, Option.bind_some]
  obtain ⟨key, hkey, rfl⟩ := Option.map_eq_some_iff.mp hheld
  rcases htakes key hkey with hown | hentry
  · left
    rw [hown]
    rfl
  · right
    -- the task has not waited, so the guard was free
    unfold guardedStep GuardedServer.step at h
    rw [hid] at h
    dsimp only at h
    split at h
    · cases h
    · rename_i hwaits
      unfold GuardedServer.waits at hwaits
      rw [htask, Option.bind_some, hentry] at hwaits
      simpa using hwaits

/-- What a step does to the guards. -/
theorem guards_of_step
    (h : guardedStep shard codec hash sha256 debugRequest config s e = some s') :
    (e.taskId = none ∧ s'.guards = s.guards) ∨
      ∃ id, e.taskId = some id ∧ s'.guards = Locks.handOver s.guards id
        (GuardedServer.shardHeld shard s.server id)
        (GuardedServer.shardHeld shard s'.server id) := by
  unfold guardedStep GuardedServer.step at h
  cases hid : e.taskId with
  | none =>
      rw [hid] at h
      obtain ⟨server, -, rfl⟩ := Option.map_eq_some_iff.mp h
      exact .inl ⟨rfl, rfl⟩
  | some id =>
      rw [hid] at h
      dsimp only at h
      split at h
      · cases h
      · obtain ⟨server, -, rfl⟩ := Option.map_eq_some_iff.mp h
        exact .inr ⟨id, rfl, rfl⟩

/-- What the others hold stays. -/
theorem shardHeld_other
    (h : guardedStep shard codec hash sha256 debugRequest config s e = some s') {id : TaskId}
    (hid : e.taskId ≠ some id) :
    GuardedServer.shardHeld shard s'.server id = GuardedServer.shardHeld shard s.server id := by
  unfold GuardedServer.shardHeld
  rcases (tasksStep_of_step (serverStep_of_guarded h)).others id hid with
    hsame | ⟨hnone, messages, hnew⟩
  · rw [hsame]
  · rw [hnone, hnew]
    rfl

/-- **A step keeps the table of guards true.** -/
theorem names_of_step (hs : Locks.Names s.guards (GuardedServer.shardHeld shard s.server))
    (h : guardedStep shard codec hash sha256 debugRequest config s e = some s') :
    Locks.Names s'.guards (GuardedServer.shardHeld shard s'.server) := by
  rcases guards_of_step h with ⟨hid, hguards⟩ | ⟨id, hid, hguards⟩
  · have hheld : GuardedServer.shardHeld shard s'.server =
        GuardedServer.shardHeld shard s.server :=
      funext fun id => shardHeld_other h (by rw [hid]; simp)
    rw [hguards, hheld]
    exact hs
  · rw [hguards]
    refine hs.handOver (fun sh hheld => takes_of_step hid h hheld) fun id' hne => ?_
    refine shardHeld_other h fun heq => hne ?_
    rw [hid] at heq
    exact (Option.some.inj heq).symm

end Steps

/-! ## Runs -/

section Runs

variable {state : ServerState} {es : List ServerEvent} {s : GuardedServer}

/-- A run that the guards leave is a run of the server. -/
theorem run_of_guarded {s₀ : GuardedServer}
    (hrun : Transition.run (guardedStep shard codec hash sha256 debugRequest config) s₀ es =
      some s) :
    Transition.run (serverStep codec hash sha256 debugRequest config) s₀.server es =
      some s.server := by
  refine Transition.run_induction (motive := fun es s => Transition.run
    (serverStep codec hash sha256 debugRequest config) s₀.server es = some s.server) rfl ?_ hrun
  intro es s e s' _ hes he
  exact Transition.run_concat.mpr ⟨s.server, hes, serverStep_of_guarded he⟩

/-- The table of guards names the holders, after every run. -/
theorem names_of_run
    (hrun : Transition.run (guardedStep shard codec hash sha256 debugRequest config)
      (.start state) es = some s) :
    Locks.Names s.guards (GuardedServer.shardHeld shard s.server) := by
  refine Transition.invariant_run (fun s => Locks.Names s.guards
    (GuardedServer.shardHeld shard s.server)) ?_ (fun s e s' hs he => names_of_step hs he) hrun
  intro sh id
  simp [GuardedServer.start, Server.start, GuardedServer.shardHeld, Server.task]

/-- **Calls on the writers of one shard do not overlap**, however the connections of a server take
turns; and every run that the guards leave is one of the server. -/
theorem guardsExclude_of_run (shard : String → ℕ) (codec : Codec) (hash : String → ℕ → ℕ → UInt64)
    (sha256 : Bytes → Bytes) (debugRequest : Request → String) (config : ConnectionConfig)
    {state : ServerState} {es : List ServerEvent} {s : GuardedServer}
    (hrun : Transition.run (guardedStep shard codec hash sha256 debugRequest config)
      (.start state) es = some s) :
    Transition.run (serverStep codec hash sha256 debugRequest config) (.start state) es =
        some s.server ∧ GuardsExclude shard s := by
  have hnames := names_of_run hrun
  refine ⟨run_of_guarded hrun, fun sh id id' => hnames.unique, fun id key hentry => ?_⟩
  unfold GuardedServer.waits
  rw [hentry]
  dsimp only
  rw [Option.isSome_iff_exists]
  exact exists_congr fun id' => hnames (shard key) id'

/-- Both blocks come at once. The second task finds the guard of the file held by the first. -/
def waitingEvents : List ServerEvent :=
  offeredRun ++ [⟨0, .read (plainFrame .response (encodeResponse firstResponse))⟩,
    ⟨0, .read (plainFrame .response (encodeResponse secondResponse))⟩] ++
  List.replicate 5 ⟨0, .turn 1 quietInput⟩ ++ List.replicate 4 ⟨0, .turn 2 quietInput⟩

/-- Witness: the second task waits for the first one. -/
theorem guardsExclude_of_run_waiting :
    ∃ s, Transition.run (guardedStep (fun _ => 0) fetchedMessages (fun _ _ _ => 0) pairHash
        (fun _ => "") unnamedConfig) (.start unsharedState) waitingEvents = some s ∧
      s.waits (fun _ => 0) ⟨0, 2⟩ = true ∧
      Transition.run (serverStep fetchedMessages (fun _ _ _ => 0) pairHash (fun _ => "")
        unnamedConfig) (.start unsharedState) waitingEvents = some s.server ∧
      GuardsExclude (fun _ => 0) s := by
  have hwaits : (Transition.run (guardedStep (fun _ => 0) fetchedMessages (fun _ _ _ => 0) pairHash
      (fun _ => "") unnamedConfig) (.start unsharedState) waitingEvents).map
        (fun s => s.waits (fun _ => 0) ⟨0, 2⟩) = some true := by
    decide +kernel
  obtain ⟨s, hrun, hwaits⟩ := Option.map_eq_some_iff.mp hwaits
  exact ⟨s, hrun, hwaits, guardsExclude_of_run (fun _ => 0) fetchedMessages (fun _ _ _ => 0)
    pairHash (fun _ => "") unnamedConfig hrun⟩

end Runs

end Grizol.Analysis
