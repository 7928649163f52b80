import Grizol.Analysis.GuardedServer
import Grizol.Analysis.TaskRanks

/-!
# Every task ends

A task takes finitely many turns, so from some step on it stays as it is. It has ended then, or
it is kept from its next turn: by a full channel, which the loop over it empties, or by a guard,
which its holder gives back, since it waits for nothing itself.
-/

set_option autoImplicit false

namespace Grizol.Analysis

open Filter Grizol.Library Grizol.Model Grizol.Interface
open Grizol.Model.Syncthing

variable {shard : String → ℕ} {codec : Codec} {hash : String → ℕ → ℕ → UInt64}
  {sha256 : Bytes → Bytes} {debugRequest : Request → String} {config : ConnectionConfig}

/-! ## What keeps a task from its turn -/

section Turns

variable {s s' : GuardedServer} {k k' : Connection} {c i : ℕ}

/-- A task is there if its connection has it. -/
theorem task_eq_some {id : TaskId} {task : MessageTask} :
    s.server.task id = some task ↔
      ∃ k, s.server.connections id.connection = some k ∧ k.tasks[id.task]? = some task :=
  Option.bind_eq_some_iff

/-- Who holds a guard looks up no writer. -/
theorem entryKey_of_guardKey {task : MessageTask} {key : String}
    (h : task.guardKey = some key) : task.entryKey = none := by
  cases task with
  | handling handler messages =>
      cases handler with
      | response h' =>
          change h'.pc.guardKey = some key at h
          show h'.pc.entryKey = none
          cases hpc : h'.pc with
          | openWriter request fileSize blockSize | concludeWriter request fileSize blockSize =>
              rw [hpc] at h
              cases h
          | _ => rfl
      | _ => rfl
  | _ => rfl

/-- A step of the server that waits for no guard is possible. -/
theorem guarded_isSome {input : TaskInput} (hwaits : s.waits shard ⟨c, i⟩ = false)
    {server : Server} (h : serverStep codec hash sha256 debugRequest config s.server
      ⟨c, .turn i input⟩ = some server) :
    (guardedStep shard codec hash sha256 debugRequest config s ⟨c, .turn i input⟩).isSome =
      true := by
  unfold guardedStep GuardedServer.step
  dsimp only [ServerEvent.taskId]
  rw [hwaits, if_neg (by simp), Option.isSome_map]
  exact Option.isSome_of_eq_some h

/-- A task that cannot take its turn has ended, or finds the channel full, or waits for a guard. -/
theorem kept_of_not_enabled {task : MessageTask} (hk : s.server.connections c = some k)
    (htask : k.tasks[i]? = some task)
    (h : ¬ Fairness.Enabled (guardedStep shard codec hash sha256 debugRequest config)
      (turnsOf c i) s) :
    Ended task ∨ (∃ results messages, task = .sending results messages) ∧ k.receiving = true ∧
      channelCapacity ≤ k.events.length ∨ s.waits shard ⟨c, i⟩ = true := by
  cases hwaits : s.waits shard ⟨c, i⟩ with
  | true => exact .inr (.inr rfl)
  | false =>
      have hturn : k.turn hash sha256 debugRequest config i quietInput s.server.state = none := by
        by_contra hsome
        obtain ⟨⟨k', s'⟩, hturn⟩ := Option.ne_none_iff_exists'.mp hsome
        refine h ⟨⟨c, .turn i quietInput⟩, ⟨rfl, _, rfl⟩, guarded_isSome hwaits
          (serverStep_eq_some.mpr ⟨k', s', ?_, rfl⟩)⟩
        rw [hk]
        exact hturn
      unfold Connection.turn at hturn
      rw [htask] at hturn
      cases task with
      | returned | failed | panicked e => exact .inl trivial
      | next messages => cases messages <;> cases hturn
      | handling h messages => cases h <;> cases hturn
      | sending results messages =>
          refine .inr (.inl ⟨⟨_, _, rfl⟩, ?_⟩)
          cases results with
          | nil => cases hturn
          | cons result results =>
              cases result with
              | error e => cases hturn
              | ok event =>
                  dsimp only at hturn
                  unfold Connection.sendEvent at hturn
                  split_ifs at hturn with hreceiving hroom
                  · cases hturn
                  · exact ⟨hreceiving, Nat.le_of_not_lt hroom⟩
                  · cases hturn

/-- Who holds a guard can take its turn. -/
theorem enabled_of_shardHeld {sh : ℕ} {id : TaskId}
    (hheld : GuardedServer.shardHeld shard s.server id = some sh) :
    Fairness.Enabled (guardedStep shard codec hash sha256 debugRequest config)
      (turnsOf id.connection id.task) s := by
  obtain ⟨key, hkey, rfl⟩ := Option.map_eq_some_iff.mp hheld
  obtain ⟨task, htask, hguard⟩ := Option.bind_eq_some_iff.mp hkey
  obtain ⟨k, hk, htaski⟩ := task_eq_some.mp htask
  by_contra hkept
  rcases kept_of_not_enabled hk htaski hkept with hended | ⟨⟨results, messages, rfl⟩, -⟩ | hwaits
  · cases task with
    | returned | failed | panicked e => cases hguard
    | _ => exact hended
  · cases hguard
  · change s.waits shard id = true at hwaits
    unfold GuardedServer.waits at hwaits
    rw [htask, Option.bind_some, entryKey_of_guardKey hguard] at hwaits
    cases hwaits

/-- The loop can go on while something is in the channel. -/
theorem enabled_sends (hk : s.server.connections c = some k) (hevents : k.events ≠ []) :
    Fairness.Enabled (guardedStep shard codec hash sha256 debugRequest config) (sendsOn c) s := by
  have hsend : ∃ k' s', k.send codec config .done s.server.state = some (k', s') := by
    unfold Connection.send
    obtain ⟨event, events, hcons⟩ := List.exists_cons_of_ne_nil hevents
    rw [hcons]
    dsimp only
    split
    · exact ⟨_, _, rfl⟩
    · split <;> exact ⟨_, _, rfl⟩
  obtain ⟨k', s', hsend⟩ := hsend
  refine ⟨⟨c, .send .done⟩, ⟨rfl, _, rfl⟩, ?_⟩
  unfold guardedStep GuardedServer.step
  dsimp only [ServerEvent.taskId]
  rw [Option.isSome_map]
  exact Option.isSome_of_eq_some
    (serverStep_eq_some.mpr ⟨k', s', by rw [hk]; exact hsend, rfl⟩)

/-- It makes room, or closes the channel. -/
theorem room_of_sent {s s' : Server} {e : ServerEvent} (he : e ∈ sendsOn c)
    (hstep : serverStep codec hash sha256 debugRequest config s e = some s')
    (hk : s.connections c = some k) (hk' : s'.connections c = some k') :
    k'.receiving = false ∨ k'.events.length < k.events.length := by
  obtain ⟨rfl, outcome, houtcome⟩ := he
  obtain ⟨k₁, state, hconnection, rfl⟩ := serverStep_eq_some.mp hstep
  rw [hk, houtcome] at hconnection
  change Function.update s.connections e.connection (some k₁) e.connection = some k' at hk'
  rw [Function.update_self] at hk'
  obtain rfl := Option.some.inj hk'
  cases moved_of_stepConnection hconnection with
  | broken event events p outcome hevents hp hwritten => exact .inl rfl
  | wrote event events requests p data outcome hevents hrequests hdata =>
      rcases writeData_events ({ k with events := events } : Connection) data outcome with
        hsame | ⟨-, hclosed⟩
      · right
        rw [hsame, hevents]
        exact Nat.lt_succ_self _
      · exact .inl hclosed

end Turns

/-! ## Runs -/

section Runs

variable {state : ServerState} {s : ℕ → GuardedServer} {e : ℕ → ServerEvent} {c i : ℕ}

/-- With the guards left out, a run without end is one of the server. -/
theorem runs_of_guarded
    (hruns : Fairness.Runs (guardedStep shard codec hash sha256 debugRequest config) s e) :
    Fairness.Runs (serverStep codec hash sha256 debugRequest config) (fun n => (s n).server) e :=
  fun n => serverStep_of_guarded (hruns n)

/-- The table of guards names the holders all along. -/
theorem names_of_runs (hstart : s 0 = .start state)
    (hruns : Fairness.Runs (guardedStep shard codec hash sha256 debugRequest config) s e) (n : ℕ) :
    Locks.Names (s n).guards (GuardedServer.shardHeld shard (s n).server) := by
  have hreaches := hruns.reaches n
  rw [hstart] at hreaches
  exact names_of_run hreaches

/-- A guard that is not given back stays with its holder. -/
theorem holder_stays (hstart : s 0 = .start state)
    (hruns : Fairness.Runs (guardedStep shard codec hash sha256 debugRequest config) s e)
    {n sh : ℕ} {id : TaskId} (hid : (s n).guards sh = some id)
    (hheld : (s (n + 1)).guards sh ≠ none) : (s (n + 1)).guards sh = some id := by
  rcases guards_of_step (hruns n) with ⟨-, hguards⟩ | ⟨id', hid', hguards⟩
  · rw [hguards, hid]
  · rw [hguards] at hheld ⊢
    exact (names_of_runs hstart hruns n).stays
      (fun _ hafter => takes_of_step hid' (hruns n) hafter) hid hheld

/-- **Every guard is given back**, again and again: its holder takes a turn as long as it holds it,
and takes finitely many. -/
theorem guard_freed (hstart : s 0 = .start state)
    (hruns : Fairness.Runs (guardedStep shard codec hash sha256 debugRequest config) s e)
    (hturns : ∀ c i, Fairness.WeaklyFairTo (guardedStep shard codec hash sha256 debugRequest config)
      (turnsOf c i) s e) (n sh : ℕ) : ∃ m, n ≤ m ∧ (s m).guards sh = none := by
  by_contra hnone
  have hheld : ∀ m, n ≤ m → (s m).guards sh ≠ none := fun m hm hfree => hnone ⟨m, hm, hfree⟩
  obtain ⟨id, hid⟩ := Option.ne_none_iff_exists'.mp (hheld n le_rfl)
  have hstays : ∀ m, n ≤ m → (s m).guards sh = some id := by
    intro m hm
    induction m, hm using Nat.le_induction with
    | base => exact hid
    | succ m hm ih => exact holder_stays hstart hruns ih (hheld _ (le_trans hm m.le_succ))
  have hholds := fun m hm => (names_of_runs hstart hruns m sh id).mp (hstays m hm)
  have hoften : ∃ᶠ m in atTop, e m ∈ turnsOf id.connection id.task := by
    refine hturns id.connection id.task ?_
    filter_upwards [eventually_ge_atTop n] with m hm
    exact enabled_of_shardHeld (hholds m hm)
  -- but the holder takes finitely many turns
  obtain ⟨key, hkey, -⟩ := Option.map_eq_some_iff.mp (hholds n le_rfl)
  obtain ⟨task, htask, -⟩ := Option.bind_eq_some_iff.mp hkey
  obtain ⟨k, hk, htaski⟩ := task_eq_some.mp htask
  exact hoften (eventually_no_turn (s := fun n => (s n).server) (congrArg _ hstart)
    (runs_of_guarded hruns) hk (List.getElem?_eq_some_iff.mp htaski).1)

/-- **Every task ends.** In a run of the server that never ends, a task that was spawned for the
messages of a read comes to its end, however it takes turns with the others, whatever guards
they hold and whatever its file operations and commands end in, if the run gives the tasks
and the loop of its connection their turns. -/
theorem endsIfFair_of_runs (shard : String → ℕ) (codec : Codec) (hash : String → ℕ → ℕ → UInt64)
    (sha256 : Bytes → Bytes) (debugRequest : Request → String) (config : ConnectionConfig)
    {state : ServerState} {s : ℕ → GuardedServer} {e : ℕ → ServerEvent}
    (hstart : s 0 = .start state)
    (hruns : Fairness.Runs (guardedStep shard codec hash sha256 debugRequest config) s e)
    {c i n : ℕ} {k : Connection} (hk : (s n).server.connections c = some k)
    (hi : i < k.tasks.length) :
    EndsIfFair shard codec hash sha256 debugRequest config c i s e := by
  intro hweak hsends hturns
  have hserver := runs_of_guarded hruns
  have hfirst : (s 0).server = .start state := congrArg _ hstart
  have hnever := eventually_no_turn (s := fun n => (s n).server) hfirst hserver hk hi
  obtain ⟨start, hafter⟩ := eventually_atTop.mp
    (hnever.and (hturns.eventually_not_enabled hnever))
  obtain ⟨k₀, task, hk₀, htask⟩ := task_of_runs (s := fun n => (s n).server) hfirst hserver hk hi
    (le_max_left n start)
  -- the task is what it is from here on
  have hstays : ∀ m, max n start ≤ m →
      ∃ k, (s m).server.connections c = some k ∧ k.tasks[i]? = some task := by
    intro m hm
    induction m, hm using Nat.le_induction with
    | base => exact ⟨k₀, hk₀, htask⟩
    | succ m hm ih =>
        obtain ⟨k₁, hk₁, htask₁⟩ := ih
        obtain ⟨k', task', hk', htask', hsame, -⟩ :=
          brings_of_runs (s := fun n => (s n).server) hfirst hserver hk₁ htask₁
        obtain ⟨rfl, -⟩ := hsame (hafter m (le_trans (le_max_right n start) hm)).1
        exact ⟨k', hk', htask'⟩
  have hkept := fun m (hm : max n start ≤ m) k₁ (hk₁ : (s m).server.connections c = some k₁)
    (htask₁ : k₁.tasks[i]? = some task) =>
      kept_of_not_enabled hk₁ htask₁ (hafter m (le_trans (le_max_right n start) hm)).2
  by_cases hended : Ended task
  · filter_upwards [eventually_ge_atTop (max n start)] with m hm
    obtain ⟨k₁, hk₁, htask₁⟩ := hstays m hm
    exact ⟨k₁, task, hk₁, htask₁, hended⟩
  cases hentry : task.entryKey with
  | some key =>
      -- it looks up a writer, and finds the guard free
      obtain ⟨m, hm, hfree⟩ := guard_freed hstart hruns hweak (max n start) (shard key)
      obtain ⟨k₁, hk₁, htask₁⟩ := hstays m hm
      rcases hkept m hm k₁ hk₁ htask₁ with hend | ⟨⟨results, messages, rfl⟩, -⟩ | hwaits
      · exact absurd hend hended
      · cases hentry
      · unfold GuardedServer.waits at hwaits
        rw [task_eq_some.mpr ⟨k₁, hk₁, htask₁⟩, Option.bind_some, hentry] at hwaits
        dsimp only at hwaits
        rw [hfree] at hwaits
        cases hwaits
  | none =>
      have hfull : ∀ m, max n start ≤ m → ∃ k, (s m).server.connections c = some k ∧
          k.receiving = true ∧ channelCapacity ≤ k.events.length := by
        intro m hm
        obtain ⟨k₁, hk₁, htask₁⟩ := hstays m hm
        rcases hkept m hm k₁ hk₁ htask₁ with hend | ⟨-, hfull⟩ | hwaits
        · exact absurd hend hended
        · exact ⟨k₁, hk₁, hfull⟩
        · unfold GuardedServer.waits at hwaits
          rw [task_eq_some.mpr ⟨k₁, hk₁, htask₁⟩, Option.bind_some, hentry] at hwaits
          cases hwaits
      have hsend : ∃ᶠ m in atTop, e m ∈ sendsOn c := by
        refine hsends ?_
        filter_upwards [eventually_ge_atTop (max n start)] with m hm
        obtain ⟨k₁, hk₁, -, hlength⟩ := hfull m hm
        refine enabled_sends hk₁ fun hnone => ?_
        rw [hnone] at hlength
        exact absurd hlength (by decide)
      -- but a pass of the loop makes room
      obtain ⟨m, hm, hmem⟩ := frequently_atTop.mp hsend (max n start)
      obtain ⟨k₁, hk₁, -, hlength⟩ := hfull m hm
      obtain ⟨k', hk', hreceiving, hlength'⟩ := hfull (m + 1) (le_trans hm m.le_succ)
      have hchannel :=
        (placed_of_runs (s := fun n => (s n).server) hfirst hserver m c k₁ hk₁).channel
      rcases room_of_sent hmem (hserver m) hk₁ hk' with hclosed | hless
      · rw [hclosed] at hreceiving
        cases hreceiving
      · omega

end Runs

/-! ## A run without end -/

section Example

variable {s : GuardedServer}

/-- What is not the start of a connection happens on one that is there. -/
theorem connection_of_guarded {s' : GuardedServer} {c : ℕ} {event : ConnectionEvent}
    (hevent : ∀ clientDeviceId, event ≠ .accept clientDeviceId)
    (hstep : guardedStep shard codec hash sha256 debugRequest config s ⟨c, event⟩ = some s') :
    ∃ k k' state, s.server.connections c = some k ∧
      Server.stepConnection codec hash sha256 debugRequest config s.server.state (some k) event =
        some (k', state) := by
  obtain ⟨k', state, hconnection, -⟩ := serverStep_eq_some.mp (serverStep_of_guarded hstep)
  dsimp only at hconnection
  cases hk : s.server.connections c with
  | none =>
      rw [hk] at hconnection
      cases event with
      | accept clientDeviceId => exact absurd rfl (hevent clientDeviceId)
      | _ => cases hconnection
  | some k =>
      rw [hk] at hconnection
      exact ⟨k, k', state, rfl, hconnection⟩

/-- Tasks that have ended take no turns. -/
theorem not_enabled_turns {c : ℕ} (hended : ∀ k, s.server.connections c = some k →
    ∀ task ∈ k.tasks, Ended task) (i : ℕ) :
    ¬ Fairness.Enabled (guardedStep shard codec hash sha256 debugRequest config)
      (turnsOf c i) s := by
  rintro ⟨⟨c, event⟩, ⟨rfl, input, rfl⟩, hsome⟩
  obtain ⟨s', hstep⟩ := Option.isSome_iff_exists.mp hsome
  obtain ⟨k, k', state, hk, hconnection⟩ := connection_of_guarded (by simp) hstep
  obtain ⟨task, task', queued, htask, hturned, -⟩ := turn_turned hconnection
  have hend := hended k hk task (List.mem_of_getElem? htask)
  cases hturned <;> exact hend

/-- A loop whose channel is empty has no pass. -/
theorem not_enabled_sends {c : ℕ} (hempty : ∀ k, s.server.connections c = some k → k.events = []) :
    ¬ Fairness.Enabled (guardedStep shard codec hash sha256 debugRequest config) (sendsOn c) s := by
  rintro ⟨⟨c, event⟩, ⟨rfl, outcome, rfl⟩, hsome⟩
  obtain ⟨s', hstep⟩ := Option.isSome_iff_exists.mp hsome
  obtain ⟨k, k', state, hk, hconnection⟩ := connection_of_guarded (by simp) hstep
  change k.send codec config outcome s.server.state = _ at hconnection
  unfold Connection.send at hconnection
  rw [hempty k hk] at hconnection
  cases hconnection

/-- After a run on one connection, further clients connect. -/
def acceptedAfter (s : GuardedServer) (n : ℕ) : GuardedServer :=
  ⟨⟨s.server.state, fun c =>
    if 0 < c ∧ c ≤ n then some (.new clientDevice) else s.server.connections c⟩, s.guards⟩

/-- No connection accepted yet. -/
theorem acceptedAfter_zero (s : GuardedServer) : acceptedAfter s 0 = s := by
  have hsame : (fun c => if 0 < c ∧ c ≤ 0 then some (Connection.new clientDevice)
      else s.server.connections c) = s.server.connections := by
    funext c
    rw [if_neg (by omega)]
  unfold acceptedAfter
  rw [hsame]

/-- Accepting one connection after the other is a run. -/
theorem acceptedAfter_runs (hnone : ∀ c, 0 < c → s.server.connections c = none) :
    Fairness.Runs (guardedStep shard codec hash sha256 debugRequest config) (acceptedAfter s)
      fun n => ⟨n + 1, .accept clientDevice⟩ := by
  intro n
  have hfree : (acceptedAfter s n).server.connections (n + 1) = none := by
    unfold acceptedAfter
    dsimp only
    rw [if_neg (by omega)]
    exact hnone _ (Nat.succ_pos n)
  refine Option.map_eq_some_iff.mpr ⟨(acceptedAfter s (n + 1)).server,
    serverStep_eq_some.mpr ⟨.new clientDevice, s.server.state, ?_, ?_⟩, rfl⟩
  · dsimp only
    rw [hfree]
    rfl
  · refine congrArg (Server.mk s.server.state) (funext fun c => ?_)
    by_cases hc : c = n + 1
    · subst hc
      simp
    · rw [Function.update_of_ne hc]
      have hiff : (0 < c ∧ c ≤ n + 1) ↔ (0 < c ∧ c ≤ n) := by omega
      simp only [acceptedAfter, hiff]

/-- A run on one connection makes no other. -/
theorem connections_of_run {s₀ : GuardedServer} {c : ℕ} {es : List ServerEvent}
    (hes : ∀ e ∈ es, e.connection = c)
    (hrun : Transition.run (guardedStep shard codec hash sha256 debugRequest config) s₀ es =
      some s) {c' : ℕ} (hne : c' ≠ c) : s.server.connections c' = s₀.server.connections c' := by
  have hmeets : Transition.Meets (guardedStep shard codec hash sha256 debugRequest config)
      (fun _ e => e.connection = c) s₀ es := Transition.meets_of_forall_mem hes s₀
  refine Transition.invariant_run_of_meets
    (fun s => s.server.connections c' = s₀.server.connections c') rfl ?_ hmeets hrun
  intro s e s' hs hc he
  obtain ⟨k, state, -, hserver⟩ := serverStep_eq_some.mp (serverStep_of_guarded he)
  rw [hserver]
  dsimp only
  rw [Function.update_of_ne (by rw [hc]; exact hne), hs]

/-- The first task returns, then the second one. -/
def finishedEvents : List ServerEvent :=
  waitingEvents ++ List.replicate 15 ⟨0, .turn 1 quietInput⟩ ++
  List.replicate 38 ⟨0, .turn 2 quietInput⟩ ++ List.replicate 2 ⟨0, .send .done⟩

/-- Witness: the second task waits for the guard, and ends. -/
theorem endsIfFair_of_runs_waiting :
    ∃ (s : ℕ → GuardedServer) (e : ℕ → ServerEvent),
      Fairness.Runs (guardedStep (fun _ => 0) fetchedMessages (fun _ _ _ => 0) pairHash
        (fun _ => "") unnamedConfig) s e ∧ s 0 = .start unsharedState ∧
      (∃ n, (s n).waits (fun _ => 0) ⟨0, 2⟩ = true) ∧
      ∀ᶠ n in atTop, EndedAt (s n).server 0 2 := by
  have hwaiting : (Transition.run (guardedStep (fun _ => 0) fetchedMessages (fun _ _ _ => 0)
      pairHash (fun _ => "") unnamedConfig) (.start unsharedState)
      (finishedEvents.take waitingEvents.length)).map (fun s => s.waits (fun _ => 0) ⟨0, 2⟩) =
        some true := by
    decide +kernel
  have hfinished : ((Transition.run (guardedStep (fun _ => 0) fetchedMessages (fun _ _ _ => 0)
      pairHash (fun _ => "") unnamedConfig) (.start unsharedState) finishedEvents).bind fun s =>
        s.server.connections 0).map (fun k => (k.tasks.length, k.events.length,
          k.tasks.all fun task => match task with | .returned => true | _ => false)) =
        some (3, 0, true) := by
    decide +kernel
  obtain ⟨k, hk, hdone⟩ := Option.map_eq_some_iff.mp hfinished
  obtain ⟨s₁, hrun, hk⟩ := Option.bind_eq_some_iff.mp hk
  obtain ⟨htasks, hdone⟩ := Prod.mk.inj hdone
  obtain ⟨hevents, hreturned⟩ := Prod.mk.inj hdone
  have hnone : ∀ c, 0 < c → s₁.server.connections c = none := fun c hc =>
    connections_of_run (by decide +kernel) hrun (Nat.ne_of_gt hc)
  obtain ⟨s, e, hruns, htake, hafter⟩ :=
    Fairness.Runs.after hrun (acceptedAfter_runs hnone) (acceptedAfter_zero s₁)
  have hzero : s 0 = .start unsharedState := (Option.some.inj (htake 0 (Nat.zero_le _))).symm
  refine ⟨s, e, hruns, hzero, ⟨waitingEvents.length, ?_⟩, ?_⟩
  · rw [htake _ (by decide +kernel)] at hwaiting
    exact Option.some.inj hwaiting
  -- nothing is left to do for the tasks of any connection
  have hlast : ∀ n c k', (acceptedAfter s₁ n).server.connections c = some k' →
      (∀ task ∈ k'.tasks, Ended task) ∧ k'.events = [] := by
    intro n c k' hk'
    unfold acceptedAfter at hk'
    dsimp only at hk'
    split_ifs at hk' with hc
    · obtain rfl := Option.some.inj hk'
      exact ⟨by simp [Connection.new], rfl⟩
    · have hc0 : c = 0 := by
        by_contra hne
        rw [hnone c (Nat.pos_of_ne_zero hne)] at hk'
        cases hk'
      subst hc0
      obtain rfl := Option.some.inj (hk.symm.trans hk')
      refine ⟨fun task htask => ?_, List.length_eq_zero_iff.mp hevents⟩
      have hend := List.all_eq_true.mp hreturned task htask
      cases task with
      | returned => trivial
      | _ => cases hend
  have hquiet : ∀ᶠ n in atTop, ∀ c k', (s n).server.connections c = some k' →
      (∀ task ∈ k'.tasks, Ended task) ∧ k'.events = [] := by
    filter_upwards [eventually_ge_atTop finishedEvents.length] with n hn
    obtain ⟨n, rfl⟩ := Nat.exists_eq_add_of_le hn
    rw [hafter]
    exact hlast n
  have hturns : ∀ c i, Fairness.FairTo (guardedStep (fun _ => 0) fetchedMessages (fun _ _ _ => 0)
      pairHash (fun _ => "") unnamedConfig) (turnsOf c i) s e := fun c i =>
    .of_eventually (hquiet.mono fun n hn => not_enabled_turns (fun k' hk' => (hn c k' hk').1) i)
  have hsends : Fairness.FairTo (guardedStep (fun _ => 0) fetchedMessages (fun _ _ _ => 0)
      pairHash (fun _ => "") unnamedConfig) (sendsOn 0) s e :=
    .of_eventually (hquiet.mono fun n hn => not_enabled_sends fun k' hk' => (hn 0 k' hk').2)
  have hthere : (s finishedEvents.length).server.connections 0 = some k := by
    have hsame := hafter 0
    rw [Nat.add_zero] at hsame
    rw [hsame]
    exact hk
  exact endsIfFair_of_runs (fun _ => 0) fetchedMessages (fun _ _ _ => 0) pairHash (fun _ => "")
    unnamedConfig hzero hruns (i := 2) hthere (by rw [htasks]; decide)
    (fun c i => (hturns c i).weakly) hsends.weakly (hturns 0 2)

end Example

end Grizol.Analysis
