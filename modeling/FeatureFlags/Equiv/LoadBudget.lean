import FeatureFlags.Equiv.Activation
import FeatureFlags.Equiv.Ledger

/-!
# Loads of the provider

The executor of a load may call its operation as often as it likes, also at the same time, and with
any contexts.

* `OperationMoves`, `OperationsMove`: what a step of a call of the operation does, and what a step
  of a thread does to the calls of its load.
* `sum_held_eq`: the slots that are taken are those that calls of the operation hold.
* `LoadStage.spare`: how many loads the calls that a load has admitted have left over.
* `load_budget_holds`: the bounds on the loads of a fleet.  The counter of the calls has 64 bits, so
  that an executor that calls the operation 2^64 times gets past it
  (`load_budget_exceeded_wraparound`).
-/

namespace FeatureFlags

open Go Lib

variable {κ : Type} {o : Outside κ}

/-! ### Calls of the operation -/

namespace Operation

def holdsSlot : Operation κ → Bool
  | .acquiring | .returned _ => false
  | _ => true

/-- The call is in `Loader.Load`. -/
def isCalling : Operation κ → Bool
  | .calling => true
  | _ => false

/-- The call may still enter `Loader.Load`. -/
def pending : Operation κ → Bool
  | .acquiring | .acquired | .swapping _ | .counting => true
  | _ => false

theorem holdsSlot_of_isReturned {operation : Operation κ} (h : operation.isReturned = true) :
    operation.holdsSlot = false := by
  cases operation with
  | returned answer => rfl
  | _ => cases h

/-- The value that the call is about to replace in the counter of the loads can be increased. -/
def Sound : Operation κ → Prop
  | .swapping current => current < maxUint64
  | _ => True

end Operation

variable (config : FleetConfig) (f : Fleet κ) in
/-- What a step of a call of the operation does. -/
inductive OperationMoves : Fleet κ → Operation κ → Operation κ → Prop
  | cancelled (answer : Except GoError (SnapshotCandidate κ)) :
      OperationMoves f .acquiring (.returned answer)
  | acquires (room : f.loadSlots < config.maxConcurrentProviderLoads) :
      OperationMoves { f with loadSlots := f.loadSlots + 1 } .acquiring .acquired
  | aborts (answer : Except GoError (SnapshotCandidate κ)) :
      OperationMoves f .acquired (.releasing answer)
  | reads {operation : Operation κ} (counts : operation = .acquired ∨ operation = .counting)
      (room : f.providerLoads ≠ maxUint64) :
      OperationMoves f operation (.swapping f.providerLoads)
  | saturates {operation : Operation κ} (counts : operation = .acquired ∨ operation = .counting)
      (full : f.providerLoads = maxUint64) : OperationMoves f operation .calling
  | swaps : OperationMoves { f with providerLoads := f.providerLoads + 1 }
        (.swapping f.providerLoads) .calling
  | retries (current : Nat) : OperationMoves f (.swapping current) .counting
  | loads (answer : Except GoError (SnapshotCandidate κ)) :
      OperationMoves f .calling (.releasing answer)
  | releases (answer : Except GoError (SnapshotCandidate κ)) :
      OperationMoves { f with loadSlots := f.loadSlots - 1 } (.releasing answer) (.returned answer)

section Steps

variable {config : FleetConfig} {f f' : Fleet κ} {operation operation' : Operation κ}

theorem operationMoves_incrementSaturating
    (counts : operation = .acquired ∨ operation = .counting) :
    OperationMoves config f f operation (incrementSaturating f) := by
  unfold incrementSaturating
  split_ifs with hfull
  · exact .saturates counts hfull
  · exact .reads counts hfull

theorem operationMoves_of_operationStep
    (h : operationStep config o f operation = some (f', operation')) :
    OperationMoves config f f' operation operation' := by
  cases operation <;> simp only [operationStep] at h
  case acquiring =>
    split at h
    · cases h
      exact .cancelled _
    · split_ifs at h with hroom
      cases h
      exact .acquires hroom
  case acquired =>
    split at h <;> cases h
    · exact .aborts _
    · exact operationMoves_incrementSaturating (.inl rfl)
  case swapping current =>
    split_ifs at h with hsame <;> cases h
    · subst hsame
      exact .swaps
    · exact .retries current
  case counting =>
    cases h
    exact operationMoves_incrementSaturating (.inr rfl)
  case calling => cases h; exact .loads _
  case releasing => cases h; exact .releases _
  case returned => cases h

namespace OperationMoves

variable (h : OperationMoves config f f' operation operation')
include h

/-- The slots that are taken move with those that the call holds. -/
theorem slots :
    f'.loadSlots + operation.holdsSlot.toNat = f.loadSlots + operation'.holdsSlot.toNat := by
  cases h with
  | reads counts | saturates counts => rcases counts with rfl | rfl <;> rfl
  | acquires room => exact Int.add_zero _
  | releases answer =>
    show f.loadSlots - 1 + 1 = f.loadSlots + 0
    omega
  | _ => rfl

theorem slots_le (hle : f.loadSlots ≤ config.maxConcurrentProviderLoads) :
    f'.loadSlots ≤ config.maxConcurrentProviderLoads := by
  cases h with
  | acquires room => exact room
  | releases answer => exact Int.le_trans (Int.sub_le_self _ (by decide)) hle
  | _ => exact hle

/-- A call that enters `Loader.Load` was pending, and is not so any more. -/
theorem pending_add :
    operation'.pending.toNat + (operation.pending && operation'.isCalling).toNat ≤
      operation.pending.toNat := by
  cases h with
  | reads counts | saturates counts => rcases counts with rfl | rfl <;> exact le_rfl
  | _ => simp [Operation.pending, Operation.isCalling]

theorem sound (hle : f.providerLoads ≤ maxUint64) : operation'.Sound := by
  cases h with
  | reads counts room => exact Nat.lt_of_le_of_ne hle room
  | _ => exact trivial

/-- The counter of the loads counts the calls that enter `Loader.Load`, up to its bound. -/
theorem providerLoads_eq (hle : f.providerLoads ≤ maxUint64) (hsound : operation.Sound) :
    f'.providerLoads =
      min (f.providerLoads + (operation.pending && operation'.isCalling).toNat) maxUint64 := by
  cases h with
  | saturates counts full =>
    have hcall : (operation.pending && (Operation.calling : Operation κ).isCalling) = true := by
      rcases counts with rfl | rfl <;> rfl
    rw [hcall, full]
    exact (Nat.min_eq_right (Nat.le_add_right _ _)).symm
  | swaps =>
    have hlt : f.providerLoads < maxUint64 := hsound
    exact (Nat.min_eq_left hlt).symm
  | reads counts =>
    have hcall (current : Nat) :
        (operation.pending && (Operation.swapping current : Operation κ).isCalling) = false :=
      Bool.and_false _
    rw [hcall]
    exact (Nat.min_eq_left hle).symm
  | _ => exact (Nat.min_eq_left hle).symm

end OperationMoves

end Steps

/-! ### Calls of the operation in a thread -/

/-- The calls of the operation that a load has made. -/
def LoadStage.operations : LoadStage κ → List (Operation κ)
  | .entering => []
  | .executing operations => operations

/-- The calls of the operation that the task has made. -/
def FleetTask.operations : FleetTask κ → List (Operation κ)
  | .load stage => stage.operations
  | .classify .. => []

/-- The calls of the operation of the load that a thread is in. -/
def FleetThread.operations (thread : FleetThread κ) : List (Operation κ) :=
  (thread.task.map FleetTask.operations).getD []

/-- The calls of the operation that are known to the fleet. -/
def operationsOf (s : FleetPool κ) : List (Operation κ) := s.threads.flatMap FleetThread.operations

/-- What a step of a thread does to the calls of the operation. -/
inductive OperationsMove (config : FleetConfig) (o : Outside κ) (f f' : Fleet κ)
    (thread thread' : FleetThread κ) : Prop
  | calls {operations : List (Operation κ)} {nilContext : Bool}
      (executor : o.executor = .call nilContext)
      (before : thread.task = some (.load (.executing operations)))
      (after : thread'.task = some (.load (.executing
        (operations ++ [beginOperation config operations.length nilContext]))))
      (same : f' = f)
  | operates {operations : List (Operation κ)} {i : Nat} {operation operation' : Operation κ}
      (executor : o.executor = .operate i)
      (before : thread.task = some (.load (.executing operations)))
      (operation_eq : operations[i]? = some operation)
      (step : OperationMoves config f f' operation operation')
      (after : thread'.task = some (.load (.executing (operations.set i operation'))))
  | returns {operations : List (Operation κ)} (executor : o.executor = .finish)
      (before : thread.task = some (.load (.executing operations)))
      (returned : ∀ operation ∈ operations, operation.isReturned = true)
      (after : thread'.task = none) (slots : f'.loadSlots = f.loadSlots)
      (loads : f'.providerLoads = f.providerLoads)
  | other (before : thread.operations = []) (after : thread'.operations = [])
      (slots : f'.loadSlots = f.loadSlots) (loads : f'.providerLoads = f.providerLoads)

variable {operations : List (Operation κ)}

section Threads

variable {config : FleetConfig} {f f' : Fleet κ} {thread thread' : FleetThread κ}
  {spawned : List (FleetThread κ)}

theorem operations_of_task (h : thread.task = some (.load (.executing operations))) :
    thread.operations = operations := by
  unfold FleetThread.operations
  rw [h]
  rfl

theorem operations_of_task_eq_none (h : thread.task = none) : thread.operations = [] := by
  unfold FleetThread.operations
  rw [h]
  rfl

/-- A load returns when all calls of its operation have returned. -/
theorem isReturned_of_executed {answer} (h : executed config o operations = some answer) :
    ∀ operation ∈ operations, operation.isReturned = true := by
  unfold executed at h
  split_ifs at h with hexecutor hall
  · exact List.all_eq_true.mp hall
  · split at h
    · intro operation hmem
      rw [List.mem_singleton.mp hmem]
      rfl
    · cases h

variable [CustomStrategy κ] [Runtime]

theorem FleetSteps.operationsMove (h : FleetSteps config o f f' thread thread' spawned) :
    OperationsMove config o f f' thread thread' := by
  have hsteps := h.stepsTask
  generalize hbefore : thread.task = before at hsteps
  generalize hafter : thread'.task = after at hsteps
  cases hsteps with
  | load step =>
    rename_i stage p
    cases stage with
    | entering =>
      have hnone : thread.operations = [] := by
        unfold FleetThread.operations
        rw [hbefore]
        rfl
      simp only [loadStep] at step
      split_ifs at step <;> cases step
      · exact .other hnone (operations_of_task_eq_none hafter) rfl rfl
      · exact .other hnone (operations_of_task hafter) rfl rfl
    | executing operations =>
      simp only [loadStep] at step
      split at step
      · rename_i nilContext hexecutor
        split_ifs at step
        cases step
        exact .calls hexecutor hbefore hafter rfl
      · rename_i i hexecutor
        split at step
        · cases step
        · rename_i operation hoperation
          obtain ⟨⟨f₁, operation'⟩, hop, hx⟩ := Option.map_eq_some_iff.mp step
          cases hx
          exact .operates hexecutor hbefore hoperation (operationMoves_of_operationStep hop) hafter
      · rename_i hexecutor
        obtain ⟨answer, hanswer, hx⟩ := Option.map_eq_some_iff.mp step
        cases hx
        exact .returns hexecutor hbefore (isReturned_of_executed hanswer) hafter rfl rfl
  | classify after =>
    rename_i event now
    have hnone : thread.operations = [] := by
      unfold FleetThread.operations
      rw [hbefore]
      rfl
    refine .other hnone (operations_of_task_eq_none hafter) ?_ ?_ <;> rw [after] <;>
      unfold Fleet.invalidate <;> dsimp only <;> split_ifs <;> rfl
  | other same begins =>
    refine .other (operations_of_task_eq_none hbefore) ?_
      (congrArg Fleet.Ledger.loadSlots same) (congrArg Fleet.Ledger.providerLoads same)
    unfold FleetThread.operations
    rw [hafter]
    cases after with
    | none => rfl
    | some task =>
      cases task with
      | load stage =>
        have hentering : stage = .entering := begins _ rfl
        rw [hentering]
        rfl
      | classify event now => rfl

end Threads

/-! ### Slots and loads of a run -/

/-- The call `i` of the operation of the load that the thread `id` is in. -/
def operationAt (s : FleetPool κ) (id i : Nat) : Option (Operation κ) :=
  s.threads[id]?.bind fun thread => thread.operations[i]?

/-- The call of the operation that goes on in this step, before and after it. -/
def operationChange (e : FleetMove κ) : Option (Operation κ × Operation κ) :=
  match e.action with
  | .step id o =>
    match o.executor with
    | .operate i =>
      match operationAt e.before id i, operationAt e.after id i with
      | some operation, some operation' => some (operation, operation')
      | _, _ => none
    | _ => none
  | .call _ => none

/-- In this step a call of the operation enters `Loader.Load`. -/
def startsLoad (e : FleetMove κ) : Bool :=
  (operationChange e).any fun x => x.1.pending && x.2.isCalling

/-- In this step a call of the operation takes a slot. -/
def acquiresSlot (e : FleetMove κ) : Bool :=
  (operationChange e).any fun x => !x.1.holdsSlot && x.2.holdsSlot

/-- In this step a call of the operation gives its slot back. -/
def releasesSlot (e : FleetMove κ) : Bool :=
  (operationChange e).any fun x => x.1.holdsSlot && !x.2.holdsSlot

/-- How many loads the calls that a load has admitted have left over, if the counter of the calls
has not wrapped around. -/
def LoadStage.spare (config : FleetConfig) (stage : LoadStage κ) : Int :=
  min (stage.operations.length : Int) config.maxProviderLoads -
    stage.operations.countP Operation.pending

/-- The thread `id` is in a load when this step is taken. -/
def InLoad (e : FleetMove κ) (id : Nat) : Prop :=
  ∃ thread stage, e.before.threads[id]? = some thread ∧ thread.task = some (.load stage)

/-- In this step the load that the thread `id` is in enters `Loader.Load`. -/
def startsLoadOf (id : Nat) (e : FleetMove κ) : Bool :=
  match e.action with
  | .step id' _ => id' = id && startsLoad e
  | .call _ => false

/-- In this step no executor calls the operation of a load for the 2^64th time. -/
def CallsWithin (e : FleetMove κ) : Prop :=
  ∀ id o thread stage nilContext, e.action = .step id o → e.before.threads[id]? = some thread →
    thread.task = some (.load stage) → o.executor = .call nilContext →
    stage.operations.length + 1 < 2 ^ 64

/-- In this step the load that the thread `id` is in returns. -/
def LeavesLoad (e : FleetMove κ) (id : Nat) : Prop :=
  ∃ thread thread' stage, e.before.threads[id]? = some thread ∧
    thread.task = some (.load stage) ∧ e.after.threads[id]? = some thread' ∧
    ∀ stage', thread'.task ≠ some (.load stage')

/-- What bounds the loads of a run that has reached the state `s`. -/
structure LoadBudget (config : FleetConfig) (ts : List (FleetMove κ)) (s : FleetPool κ) :
    Prop where
  /-- One load, during all of which its thread is in it. -/
  perLoad : ∀ (us vs ws : List (FleetMove κ)) (id : Nat), ts = us ++ vs ++ ws →
    (∀ e ∈ vs, InLoad e id) →
    (vs.countP (startsLoadOf id) : Int) ≤ config.maxProviderLoads
  concurrent :
    ((operationsOf s).countP Operation.isCalling : Int) ≤ config.maxConcurrentProviderLoads
  slots : s.shared.loadSlots = (operationsOf s).countP Operation.holdsSlot
  /-- What has been acquired has been released, or is still held by a call of the operation. -/
  released : ts.countP acquiresSlot =
    ts.countP releasesSlot + (operationsOf s).countP Operation.holdsSlot
  /-- A load returns only after all calls of its operation, which then hold no slot. -/
  returned : ∀ (k : Nat) (e : FleetMove κ) (id : Nat) (thread : FleetThread κ), ts[k]? = some e →
    LeavesLoad e id → e.before.threads[id]? = some thread →
    ∀ operation ∈ thread.operations, operation.isReturned = true
  counted : s.shared.providerLoads = min (ts.countP startsLoad) maxUint64

section Runs

variable {config : FleetConfig} {ts : List (FleetMove κ)} {s : FleetPool κ} {k id : Nat}
  {e : FleetMove κ}

theorem pending_beginOperation {calls : Nat} {nilContext : Bool} :
    (beginOperation config calls nilContext : Operation κ).holdsSlot = false ∧
      ((beginOperation config calls nilContext : Operation κ).pending = true →
        ((calls + 1) % 2 ^ 64 : Nat) ≤ config.maxProviderLoads) ∧
      (beginOperation config calls nilContext : Operation κ).Sound := by
  unfold beginOperation
  split_ifs with hlimit
  · exact ⟨rfl, by rintro ⟨⟩, trivial⟩
  · exact ⟨rfl, by rintro ⟨⟩, trivial⟩
  · exact ⟨rfl, fun _ => Int.not_lt.mp hlimit, trivial⟩

variable {thread : FleetThread κ} {stage : LoadStage κ}

/-- The call of the operation that goes on in a step of a thread. -/
theorem OperationsMove.change {thread' : FleetThread κ} (haction : e.action = .step id o)
    (hthread : e.before.threads[id]? = some thread)
    (hthread' : e.after.threads[id]? = some thread')
    (h : OperationsMove config o e.before.shared e.after.shared thread thread') :
    (∃ operations i operation operation', thread.task = some (.load (.executing operations)) ∧
      operations[i]? = some operation ∧ OperationMoves config e.before.shared e.after.shared
      operation operation' ∧ thread'.task = some (.load (.executing (operations.set i operation')))
      ∧ operationChange e = some (operation, operation')) ∨
    operationChange e = none ∧ e.after.shared.loadSlots = e.before.shared.loadSlots ∧
      e.after.shared.providerLoads = e.before.shared.providerLoads ∧
      (thread.operations = [] ∧ thread'.operations = [] ∨ thread'.task = none ∨
        ∃ operations nilContext, o.executor = .call nilContext ∧
          thread.task = some (.load (.executing operations)) ∧
          thread'.task = some (.load (.executing
            (operations ++ [beginOperation config operations.length nilContext])))) := by
  have hat (i : Nat) : operationAt e.before id i = thread.operations[i]? := by
    rw [operationAt, hthread, Option.bind_some]
  have hat' (i : Nat) : operationAt e.after id i = thread'.operations[i]? := by
    rw [operationAt, hthread', Option.bind_some]
  cases h with
  | calls executor before after same =>
    refine .inr ⟨?_, by rw [same], by rw [same], .inr (.inr ⟨_, _, executor, before, after⟩)⟩
    simp only [operationChange, haction, executor]
  | operates executor before operation_eq step after =>
    rename_i operations i operation operation'
    have hlt := (List.getElem?_eq_some_iff.mp operation_eq).1
    refine .inl ⟨operations, i, operation, operation', before, operation_eq, step, after, ?_⟩
    simp only [operationChange, haction, executor, hat, hat', operations_of_task before,
      operations_of_task after, operation_eq, List.getElem?_set_self hlt]
  | returns executor before returned after slots loads =>
    refine .inr ⟨?_, slots, loads, .inr (.inl after)⟩
    simp only [operationChange, haction, executor]
  | other before after slots loads =>
    refine .inr ⟨?_, slots, loads, .inl ⟨before, after⟩⟩
    simp only [operationChange, haction, hat, before, List.getElem?_nil]
    cases o.executor <;> rfl

theorem spare_le_of_calls {nilContext : Bool} (hcalls : operations.length + 1 < 2 ^ 64) :
    (LoadStage.executing operations).spare config ≤ (LoadStage.executing
      (operations ++ [beginOperation config operations.length nilContext])).spare config := by
  simp only [LoadStage.spare, LoadStage.operations, List.countP_append, List.countP_singleton,
    List.length_append, List.length_singleton]
  split_ifs with hpending
  · -- an admitted call is one of the first `MaxProviderLoads`
    have hle := pending_beginOperation.2.1 hpending
    rw [Nat.mod_eq_of_lt hcalls] at hle
    omega
  · omega

theorem spare_add_le_of_operates {i : Nat} {f f' : Fleet κ} {operation operation' : Operation κ}
    (hoperation : operations[i]? = some operation)
    (hmove : OperationMoves config f f' operation operation') :
    (LoadStage.executing operations).spare config +
        (operation.pending && operation'.isCalling).toNat ≤
      (LoadStage.executing (operations.set i operation')).spare config := by
  have hset := Program.Run.countP_set_add (b := operation') Operation.pending hoperation
  have hpending := hmove.pending_add
  simp only [LoadStage.spare, LoadStage.operations, List.length_set]
  omega

theorem spare_le (stage : LoadStage κ) : stage.spare config ≤ config.maxProviderLoads := by
  unfold LoadStage.spare
  omega

theorem spare_of_operations_eq_nil (hpos : 0 ≤ config.maxProviderLoads)
    (h : stage.operations = []) : stage.spare config = 0 := by
  unfold LoadStage.spare
  rw [h]
  simp only [List.length_nil, List.countP_nil]
  omega

theorem operations_of_load (h : thread.task = some (.load stage)) :
    thread.operations = stage.operations := by
  unfold FleetThread.operations
  rw [h]
  rfl

theorem newFleet_loadBounds {ord : MapOrder} {raw config : FleetConfig}
    (h : newFleet ord raw = .ok config) :
    0 < config.maxProviderLoads ∧ 0 < config.maxConcurrentProviderLoads := by
  simp only [newFleet, bind_eq_ok, rejectIf_eq_ok, exists_const, pure_eq_ok, not_or,
    not_le, not_lt] at h
  obtain ⟨-, -, -, -, -, -, ⟨-, hloads, hconcurrent, -⟩, -, -, policies, -, rfl⟩ := h
  exact ⟨hloads, hconcurrent⟩

variable [CustomStrategy κ] [Runtime]

section

variable (run : FleetRun config ts s)
include run

/-- The thread that takes a step, and what happens to its calls of the operation. -/
theorem operationsMove_at (hk : ts[k]? = some e) (haction : e.action = .step id o) :
    ∃ thread thread', e.before.threads[id]? = some thread ∧ e.after.threads[id]? = some thread' ∧
      OperationsMove config o e.before.shared e.after.shared thread thread' := by
  obtain ⟨thread, thread', spawned, hthread, hthread', heq⟩ := run.step_at hk haction
  exact ⟨thread, thread', hthread, hthread', (steps_of_fleetStep heq).operationsMove⟩

/-- The slots that are taken are those that calls of the operation hold. -/
theorem sum_held_eq : ((operationsOf s).countP Operation.holdsSlot : Int) = s.shared.loadSlots := by
  have hsum : ((operationsOf s).countP Operation.holdsSlot : Int) =
      (s.threads.map fun thread => (thread.operations.countP Operation.holdsSlot : Int)).sum := by
    unfold operationsOf
    rw [List.countP_flatMap, Nat.cast_list_sum, List.map_map]
    rfl
  rw [hsum]
  refine Program.Run.census _ (fun f => f.loadSlots) run rfl ?_ ?_
  · intro request
    have hnone : (FleetRequest.thread config request : FleetThread κ).operations = [] :=
      operations_of_task_eq_none (task_start request)
    show ((FleetRequest.thread config request : FleetThread κ).operations.countP _ : Int) = 0
    rw [hnone]
    rfl
  · intro k e id o thread thread' spawned hk _ hthread heq
    have hsteps := steps_of_fleetStep heq
    have hspawned : (spawned.map fun thread =>
        (thread.operations.countP Operation.holdsSlot : Int)).sum = 0 := by
      refine List.sum_eq_zero fun n hn => ?_
      obtain ⟨u, hu, rfl⟩ := List.mem_map.mp hn
      rw [operations_of_task_eq_none (hsteps.task_spawned hu)]
      rfl
    rw [hspawned, add_zero]
    cases hsteps.operationsMove with
    | calls executor before after same =>
      rw [operations_of_task before, operations_of_task after, same, List.countP_append,
        List.countP_singleton, pending_beginOperation.1]
      simp
    | operates executor before operation_eq step after =>
      have hslots := step.slots
      have hset := Program.Run.countP_set_add (b := ‹Operation κ›) Operation.holdsSlot operation_eq
      rw [operations_of_task before, operations_of_task after]
      omega
    | returns executor before returned after slots loads =>
      rename_i operations
      have hzero : operations.countP Operation.holdsSlot = 0 := by
        rw [List.countP_eq_zero]
        intro operation hmem
        rw [Operation.holdsSlot_of_isReturned (returned operation hmem)]
        exact Bool.false_ne_true
      rw [operations_of_task before, operations_of_task_eq_none after, hzero, slots]
      rfl
    | other before after slots =>
      rw [before, after, slots]

/-- A step lets one call of the operation go on, or leaves the slots and the counter alone. -/
theorem operationChange_cases (hk : ts[k]? = some e) :
    (∃ (id : Nat) (thread : FleetThread κ) (operation operation' : Operation κ),
      operationChange e = some (operation, operation') ∧
      e.before.threads[id]? = some thread ∧ operation ∈ thread.operations ∧
      OperationMoves config e.before.shared e.after.shared operation operation') ∨
    operationChange e = none ∧ e.after.shared.loadSlots = e.before.shared.loadSlots ∧
      e.after.shared.providerLoads = e.before.shared.providerLoads := by
  cases haction : e.action with
  | call request =>
    have hsame : e.after.shared = e.before.shared := by
      by_contra hne
      obtain ⟨id, o, hstep⟩ := run.exists_step_of_ne hk hne
      cases haction.symm.trans hstep
    exact .inr ⟨by simp only [operationChange, haction], by rw [hsame], by rw [hsame]⟩
  | step id o =>
    obtain ⟨thread, thread', hthread, hthread', hmove⟩ := operationsMove_at run hk haction
    rcases hmove.change haction hthread hthread' with
      ⟨operations, i, operation, operation', before, hoperation, step, -, hchange⟩ |
      ⟨hchange, hslots, hloads, -⟩
    · refine .inl ⟨id, thread, operation, operation', hchange, hthread, ?_, step⟩
      rw [operations_of_task before]
      exact List.mem_of_getElem? hoperation
    · exact .inr ⟨hchange, hslots, hloads⟩

theorem loadSlots_le (hpos : 0 ≤ config.maxConcurrentProviderLoads) :
    s.shared.loadSlots ≤ config.maxConcurrentProviderLoads := by
  refine run.along (fun s => s.shared.loadSlots ≤ config.maxConcurrentProviderLoads) hpos ?_
  intro k e hk hle
  rcases operationChange_cases run hk with ⟨_, _, _, _, _, _, _, hmove⟩ | ⟨-, hslots, -⟩
  · exact hmove.slots_le hle
  · rw [hslots]
    exact hle

/-- The counter of the loads is in range, and no call is about to make it leave its range. -/
theorem sound_of_run :
    s.shared.providerLoads ≤ maxUint64 ∧
      ∀ thread ∈ s.threads, ∀ operation ∈ thread.operations, operation.Sound := by
  refine Program.Run.invariant (fun f => f.providerLoads ≤ maxUint64)
    (fun _ thread => ∀ operation ∈ thread.operations, operation.Sound) run (Nat.zero_le _) ?_ ?_
  · intro f request _ operation hmem
    have hnone : (FleetRequest.thread config request : FleetThread κ).operations = [] :=
      operations_of_task_eq_none (task_start request)
    change operation ∈ (FleetRequest.thread config request : FleetThread κ).operations at hmem
    rw [hnone] at hmem
    cases hmem
  · intro o f thread f' thread' spawned hle hsound heq
    have hsteps := steps_of_fleetStep heq
    have hspawned : ∀ u ∈ spawned, ∀ operation ∈ u.operations, operation.Sound := by
      intro u hu operation hmem
      rw [operations_of_task_eq_none (hsteps.task_spawned hu)] at hmem
      cases hmem
    cases hsteps.operationsMove with
    | calls executor before after same =>
      subst same
      refine ⟨hle, fun operation hmem => ?_, hspawned, fun _ h => h⟩
      rw [operations_of_task after] at hmem
      rw [operations_of_task before] at hsound
      rcases List.mem_append.mp hmem with hmem | hmem
      · exact hsound operation hmem
      · rw [List.mem_singleton.mp hmem]
        exact pending_beginOperation.2.2
    | operates executor before operation_eq step after =>
      rw [operations_of_task before] at hsound
      have hloads := step.providerLoads_eq hle (hsound _ (List.mem_of_getElem? operation_eq))
      refine ⟨by rw [hloads]; exact Nat.min_le_right _ _, fun operation hmem => ?_, hspawned,
        fun _ h => h⟩
      rw [operations_of_task after] at hmem
      rcases List.mem_or_eq_of_mem_set hmem with hmem | rfl
      · exact hsound operation hmem
      · exact step.sound hle
    | returns executor before returned after slots loads =>
      refine ⟨by rw [loads]; exact hle, fun operation hmem => ?_, hspawned, fun _ h => h⟩
      rw [operations_of_task_eq_none after] at hmem
      cases hmem
    | other before after slots loads =>
      refine ⟨by rw [loads]; exact hle, fun operation hmem => ?_, hspawned, fun _ h => h⟩
      rw [after] at hmem
      cases hmem

/-- The counter of the loads is the number of calls that have entered `Loader.Load`, up to its
bound. -/
theorem providerLoads_eq : s.shared.providerLoads = min (ts.countP startsLoad) maxUint64 := by
  induction run with
  | start => rfl
  | snoc run next ih =>
    rename_i ts s t a
    obtain ⟨hle, hsound⟩ := sound_of_run run
    rw [List.countP_append, List.countP_singleton]
    rcases operationChange_cases (.snoc run next) List.getElem?_concat_length with
      ⟨id, thread, operation, operation', hchange, hthread, hmem, hmove⟩ | ⟨hchange, -, hloads⟩
    · have heq := hmove.providerLoads_eq hle (hsound thread (List.mem_of_getElem? hthread) _ hmem)
      have hstarts : startsLoad ⟨s, a, t⟩ = (operation.pending && operation'.isCalling) := by
        unfold startsLoad
        rw [hchange, Option.any_some]
      rw [heq, ih, hstarts]
      cases operation.pending && operation'.isCalling
      · simp
      · simp
        omega
    · have hstarts : startsLoad ⟨s, a, t⟩ = false := by
        unfold startsLoad
        rw [hchange, Option.any_none]
      rw [hstarts, hloads, ih]
      rfl

/-- What has been taken and not given back is what is taken. -/
theorem acquired_eq_released_add :
    (ts.countP acquiresSlot : Int) = ts.countP releasesSlot + s.shared.loadSlots := by
  induction run with
  | start => rfl
  | snoc run next ih =>
    rename_i ts s t a
    simp only [List.countP_append, List.countP_singleton]
    rcases operationChange_cases (.snoc run next) List.getElem?_concat_length with
      ⟨id, thread, operation, operation', hchange, hthread, hmem, hmove⟩ | ⟨hchange, hslots, -⟩
    · have heq := hmove.slots
      simp only [acquiresSlot, releasesSlot, hchange, Option.any_some]
      dsimp only at heq
      generalize operation.holdsSlot = held at heq ⊢
      generalize operation'.holdsSlot = held' at heq ⊢
      cases held <;> cases held' <;> simp at heq ⊢ <;> omega
    · simp only [acquiresSlot, releasesSlot, hchange, Option.any_none]
      dsimp only at hslots
      simp
      omega

/-! ### The budget of one load -/

/-- A step of a load uses up what the load that it starts needs. -/
theorem spare_add_le (hpos : 0 ≤ config.maxProviderLoads)
    (hk : ts[k]? = some e) (haction : e.action = .step id o) (hcalls : CallsWithin e)
    {thread' : FleetThread κ} (hthread : e.before.threads[id]? = some thread)
    (hstage : thread.task = some (.load stage)) (hthread' : e.after.threads[id]? = some thread') :
    (∀ stage', thread'.task = some (.load stage') →
      stage.spare config + (startsLoad e).toNat ≤ stage'.spare config) ∧
    (startsLoad e = true → ∃ stage', thread'.task = some (.load stage')) := by
  obtain ⟨thread₁, thread₁', hthread₁, hthread₁', hmove⟩ := operationsMove_at run hk haction
  cases hthread.symm.trans hthread₁
  cases hthread'.symm.trans hthread₁'
  rcases hmove.change haction hthread hthread' with
    ⟨operations, i, operation, operation', before, hoperation, step, after, hchange⟩ |
    ⟨hchange, -, -, hmoved⟩
  · have hstarts : startsLoad e = (operation.pending && operation'.isCalling) := by
      unfold startsLoad
      rw [hchange, Option.any_some]
    cases hstage.symm.trans before
    refine ⟨fun stage' hstage' => ?_, fun _ => ⟨_, after⟩⟩
    cases after.symm.trans hstage'
    rw [hstarts]
    exact spare_add_le_of_operates hoperation step
  · have hstarts : startsLoad e = false := by
      unfold startsLoad
      rw [hchange, Option.any_none]
    refine ⟨fun stage' hstage' => ?_, fun htrue => by rw [hstarts] at htrue; cases htrue⟩
    rw [hstarts, Bool.toNat_false, Nat.cast_zero, add_zero]
    rcases hmoved with ⟨before, after⟩ | after | ⟨operations, nilContext, executor, before, after⟩
    · rw [operations_of_load hstage] at before
      rw [operations_of_load hstage'] at after
      rw [spare_of_operations_eq_nil hpos before, spare_of_operations_eq_nil hpos after]
    · cases after.symm.trans hstage'
    · cases hstage.symm.trans before
      cases after.symm.trans hstage'
      exact spare_le_of_calls (hcalls id o thread _ nilContext haction hthread hstage executor)

theorem spare_nonneg (hpos : 0 ≤ config.maxProviderLoads)
    (hcalls : ∀ e ∈ ts, CallsWithin e) (hthread : s.threads[id]? = some thread)
    (hstage : thread.task = some (.load stage)) : 0 ≤ stage.spare config := by
  refine Program.Run.thread_along
    (fun _ thread => ∀ stage, thread.task = some (.load stage) → 0 ≤ stage.spare config)
    run ?_ ?_ hthread stage hstage
  · intro _ request stage hstage
    cases (task_start (κ := κ) request).symm.trans hstage
  · intro k e id o thread thread' spawned hk haction hthread hthread' hspare heq
    have hsteps := steps_of_fleetStep heq
    refine ⟨fun stage' hstage' => ?_, fun _ u hu stage' hstage' => ?_⟩
    · by_cases hload : ∃ stage, thread.task = some (.load stage)
      · obtain ⟨stage, hstage⟩ := hload
        have hadd := (spare_add_le run hpos hk haction (hcalls e (List.mem_of_getElem? hk)) hthread
          hstage hthread').1 stage' hstage'
        have := hspare stage hstage
        omega
      · -- the load has just been entered
        cases hsteps.operationsMove with
        | other before after =>
          rw [operations_of_load hstage'] at after
          rw [spare_of_operations_eq_nil hpos after]
        | calls executor before | operates executor before | returns executor before =>
          exact absurd ⟨_, before⟩ hload
    · cases (hsteps.task_spawned hu).symm.trans hstage'

/-- While a thread stays in a load, it starts no more loads of the provider than the calls that have
been admitted have used up. -/
theorem countP_startsLoadOf_le (hpos : 0 ≤ config.maxProviderLoads)
    (hcalls : ∀ e ∈ ts, CallsWithin e) {us vs : List (FleetMove κ)} (hts : ts = us ++ vs)
    (hin : ∀ e ∈ vs, InLoad e id) :
    (vs.countP (startsLoadOf id) : Int) ≤ config.maxProviderLoads ∧
      ∀ thread stage, s.threads[id]? = some thread → thread.task = some (.load stage) →
        (vs.countP (startsLoadOf id) : Int) ≤ stage.spare config := by
  induction run generalizing us vs with
  | start =>
    obtain ⟨-, rfl⟩ := List.append_eq_nil_iff.mp hts.symm
    exact ⟨hpos, fun thread stage hthread => by simp at hthread⟩
  | snoc run next ih =>
    rename_i ts s t a
    have run' : FleetRun config (ts ++ [⟨s, a, t⟩]) t := .snoc run next
    rcases List.eq_nil_or_concat' vs with rfl | ⟨vs, e, rfl⟩
    · exact ⟨hpos, fun thread stage hthread hstage =>
        spare_nonneg run' hpos hcalls hthread hstage⟩
    · rw [← List.append_assoc] at hts
      obtain ⟨rfl, he⟩ := List.append_inj' hts rfl
      cases he
      obtain ⟨hle, hspare⟩ := ih (fun e he => hcalls e (List.mem_append_left _ he)) rfl
        fun e he => hin e (List.mem_append_left _ he)
      obtain ⟨thread, stage, hthread, hstage⟩ :=
        hin _ (List.mem_append_right _ (List.mem_singleton_self _))
      have hbefore := hspare thread stage hthread hstage
      rw [List.countP_append, List.countP_singleton]
      obtain ⟨thread', hthread', hmoved⟩ := (Program.moves_of_next next).thread hthread
      by_cases hstep : ∃ o, a = .step id o
      · obtain ⟨o, rfl⟩ := hstep
        have hstarts : startsLoadOf id ⟨s, .step id o, t⟩ = startsLoad ⟨s, .step id o, t⟩ := by
          simp [startsLoadOf]
        obtain ⟨hadd, hload⟩ := spare_add_le run' hpos List.getElem?_concat_length rfl
          (hcalls _ (by simp)) hthread hstage hthread'
        have hcount : ∀ stage', thread'.task = some (.load stage') →
            ((vs.countP (startsLoadOf id) +
              if startsLoadOf id ⟨s, .step id o, t⟩ = true then 1 else 0 : Nat) : Int) ≤
              stage'.spare config := by
          intro stage' hstage'
          have := hadd stage' hstage'
          rw [hstarts]
          cases h : startsLoad (⟨s, .step id o, t⟩ : FleetMove κ) <;> simp [h] at this ⊢ <;> omega
        refine ⟨?_, fun thread₁ stage' hthread₁ hstage' => ?_⟩
        · by_cases htrue : startsLoad (⟨s, .step id o, t⟩ : FleetMove κ) = true
          · obtain ⟨stage', hstage'⟩ := hload htrue
            exact le_trans (hcount stage' hstage') (spare_le stage')
          · rw [hstarts, if_neg htrue]
            exact hle
        · cases hthread'.symm.trans hthread₁
          exact hcount stage' hstage'
      · have hstarts : startsLoadOf id (⟨s, a, t⟩ : FleetMove κ) = false := by
          unfold startsLoadOf
          cases a with
          | call request => rfl
          | step id' o =>
            have hne : id' ≠ id := fun h => hstep ⟨o, by rw [h]⟩
            simp [hne]
        rw [hstarts, if_neg Bool.false_ne_true, Nat.add_zero]
        refine ⟨hle, fun thread₁ stage' hthread₁ hstage' => ?_⟩
        cases hthread'.symm.trans hthread₁
        rcases hmoved with rfl | ⟨o, -, ha, -⟩
        · exact hspare _ stage' hthread hstage'
        · exact absurd ⟨o, ha⟩ hstep

/-! ### The bounds -/

theorem isReturned_of_leavesLoad (hk : ts[k]? = some e)
    (hleaves : LeavesLoad e id) (hthread : e.before.threads[id]? = some thread) :
    ∀ operation ∈ thread.operations, operation.isReturned = true := by
  obtain ⟨thread₁, thread', stage, hthread₁, hstage, hthread', hleft⟩ := hleaves
  cases hthread.symm.trans hthread₁
  obtain ⟨thread₂, hthread₂, hsame | ⟨o, -, haction, -⟩⟩ :=
    (run.moves hk).thread hthread
  · cases hthread'.symm.trans hthread₂
    exact absurd (hsame ▸ hstage) (hleft stage)
  · obtain ⟨thread₃, thread₃', hthread₃, hthread₃', hmove⟩ := operationsMove_at run hk haction
    cases hthread.symm.trans hthread₃
    cases hthread'.symm.trans hthread₃'
    cases hmove with
    | calls executor before after | operates executor before operation_eq step after =>
        exact absurd after (hleft _)
    | returns executor before returned =>
      rw [operations_of_task before]
      exact returned
    | other before =>
      rw [before]
      intro operation hmem
      cases hmem

end

/-- **The load budget holds against any executor**, as long as it calls the operation of one load
fewer than 2^64 times. -/
theorem load_budget_holds {ord : MapOrder} {raw : FleetConfig}
    (accepted : newFleet ord raw = .ok config) (run : FleetRun config ts s)
    (within : ∀ e ∈ ts, CallsWithin e) : LoadBudget config ts s := by
  obtain ⟨hloads, hconcurrent⟩ := newFleet_loadBounds accepted
  have hheld := sum_held_eq run
  refine ⟨?_, ?_, hheld.symm, ?_, ?_, providerLoads_eq run⟩
  · intro us vs ws id hts hin
    subst hts
    cases ws with
    | nil =>
      rw [List.append_nil] at run within
      exact (countP_startsLoadOf_le run hloads.le within rfl hin).1
    | cons e ws =>
      have hk : (us ++ vs ++ e :: ws)[(us ++ vs).length]? = some e := by simp
      have hprefix := (run.upTo hk).1
      rw [List.take_left'] at hprefix
      · refine (countP_startsLoadOf_le hprefix hloads.le (fun e he => within e ?_) rfl hin).1
        exact List.mem_append_left _ he
      · rfl
  · calc ((operationsOf s).countP Operation.isCalling : Int)
        ≤ (operationsOf s).countP Operation.holdsSlot := by
          refine Int.ofNat_le.mpr (List.countP_mono_left fun operation _ hcalling => ?_)
          cases operation <;> first | rfl | cases hcalling
      _ = s.shared.loadSlots := hheld
      _ ≤ config.maxConcurrentProviderLoads := loadSlots_le run hconcurrent.le
  · have hbalance := acquired_eq_released_add run
    omega
  · intro k e id thread hk hleaves hthread
    exact isReturned_of_leavesLoad run hk hleaves hthread

end Runs

/-- Two loads, each with one call of the operation. -/
theorem load_budget_holds_rollback :
    letI := unaryRuntime
    ∃ (ts : List (FleetMove Empty)) (s : FleetPool Empty), FleetRun sampleFleet ts s ∧
      s.shared.providerLoads = 2 ∧ LoadBudget sampleFleet ts s := by
  let _ := unaryRuntime
  obtain ⟨ts, s, run, -, hfacts⟩ := exists_fleetRun sampleFleet rollback
    (fun x => x.2.shared.providerLoads = 2 && x.1.all fun e => e.before.threads.all fun thread =>
      thread.operations.length ≤ 1) (by decide +kernel)
  simp only [Bool.and_eq_true, List.all_eq_true, decide_eq_true_eq] at hfacts
  refine ⟨ts, s, run, hfacts.1, load_budget_holds accepted_sampleFleet run ?_⟩
  intro e he id o thread stage nilContext _ hthread hstage _
  have hle := hfacts.2 e he thread (List.mem_of_getElem? hthread)
  rw [operations_of_load hstage] at hle
  omega

/-! #### An executor that calls the operation 2^64 times -/

/-- A fleet with an executor, which may load once. -/
def retryFleet : FleetConfig := { sampleFleet with executor := true }

/-- A fleet of which one thread bootstraps, in a load with these calls of the operation. -/
def loadingPool (f : Fleet Empty) (operations : List (Operation Empty)) : FleetPool Empty :=
  ⟨f, [.bootstrap (.running (.loading (.executing operations)))]⟩

/-- The executor makes its next move. -/
def executorMoves (move : ExecutorMove) : Act FleetRequest (Outside Empty) :=
  .step 0 (outsideAt 100 move 100)

/-- A call of the operation that is one too many. -/
def overLimit : Operation Empty := .returned (.error (.sentinel .refreshLoadLimit))

section Wraparound

variable {f f' : Fleet Empty} {operations : List (Operation Empty)} {ts : List (FleetMove Empty)}

theorem next_call : letI := unaryRuntime
    (fleetProgram retryFleet).next (loadingPool f operations) (executorMoves (.call false)) =
      some (loadingPool f (operations ++ [beginOperation retryFleet operations.length false])) :=
  rfl

theorem next_operate {operation operation' : Operation Empty}
    (hstep : operationStep retryFleet (outsideAt 100 (.operate operations.length) 100) f operation =
      some (f', operation')) : letI := unaryRuntime
    (fleetProgram retryFleet).next (loadingPool f (operations ++ [operation]))
        (executorMoves (.operate operations.length)) =
      some (loadingPool f' (operations ++ [operation'])) := by
  let _ := unaryRuntime
  have hload : loadStep retryFleet (outsideAt 100 (.operate operations.length) 100) f
      (.executing (operations ++ [operation])) =
      some (f', .running (.executing (operations ++ [operation']))) := by
    have hoperation : (operations ++ [operation])[operations.length]? = some operation := by simp
    have hset : (operations ++ [operation]).set operations.length operation' =
        operations ++ [operation'] := by simp
    have hexecutor : (outsideAt 100 (.operate operations.length) 100).executor =
        .operate operations.length := rfl
    simp only [loadStep, hexecutor, hoperation, hstep, Option.map_some, hset]
  simp only [Program.next, loadingPool, executorMoves, List.getElem?_cons_zero, fleetProgram,
    fleetStep, bootstrapStep, hload]
  rfl

theorem startsLoadOf_operate {operation operation' : Operation Empty} :
    startsLoadOf 0 (⟨loadingPool f (operations ++ [operation]),
        executorMoves (.operate operations.length),
        loadingPool f' (operations ++ [operation'])⟩ : FleetMove Empty) =
      (operation.pending && operation'.isCalling) := by
  have hat (g : Fleet Empty) (last : Operation Empty) :
      operationAt (loadingPool g (operations ++ [last])) 0 operations.length = some last := by
    show (operations ++ [last])[operations.length]? = some last
    simp
  simp [startsLoadOf, startsLoad, operationChange, executorMoves, outsideAt, hat]

theorem inLoad_loadingPool {action : Act FleetRequest (Outside Empty)} {s : FleetPool Empty} :
    InLoad ⟨loadingPool f operations, action, s⟩ 0 :=
  ⟨_, .executing operations, rfl, rfl⟩

/-- A call of the operation that is admitted takes a slot, enters `Loader.Load` and returns. -/
theorem run_admitted : letI := unaryRuntime
    FleetRun retryFleet ts (loadingPool f operations) → f.loadSlots = 0 →
    f.providerLoads < maxUint64 →
    (beginOperation retryFleet operations.length false : Operation Empty) = .acquiring →
    ∃ (us : List (FleetMove Empty)) (f' : Fleet Empty) (operation : Operation Empty),
      FleetRun retryFleet (ts ++ us) (loadingPool f' (operations ++ [operation])) ∧
      f'.loadSlots = 0 ∧ f'.providerLoads = f.providerLoads + 1 ∧
      (∀ e ∈ us, InLoad e 0) ∧ us.countP (startsLoadOf 0) = 1 := by
  let _ := unaryRuntime
  intro run hslots hloads hbegin
  let taken : Fleet Empty := { f with loadSlots := f.loadSlots + 1 }
  let counted : Fleet Empty := { taken with providerLoads := f.providerLoads + 1 }
  let answer := (outsideAt 100 (.operate operations.length) 100).loaded
  have hcalled : (fleetProgram retryFleet).next (loadingPool f operations)
      (executorMoves (.call false)) = some (loadingPool f (operations ++ [.acquiring])) := by
    rw [next_call, hbegin]
  have hacquired : (fleetProgram retryFleet).next (loadingPool f (operations ++ [.acquiring]))
      (executorMoves (.operate operations.length)) =
      some (loadingPool taken (operations ++ [.acquired])) := by
    refine next_operate ?_
    show (if f.loadSlots < 1 then some (taken, Operation.acquired) else none) = _
    rw [if_pos (by omega)]
  have hread : (fleetProgram retryFleet).next (loadingPool taken (operations ++ [.acquired]))
      (executorMoves (.operate operations.length)) =
      some (loadingPool taken (operations ++ [.swapping f.providerLoads])) := by
    refine next_operate ?_
    show some (taken, if f.providerLoads = maxUint64 then Operation.calling else _) = _
    rw [if_neg (Nat.ne_of_lt hloads)]
  have hswapped : (fleetProgram retryFleet).next
      (loadingPool taken (operations ++ [.swapping f.providerLoads]))
      (executorMoves (.operate operations.length)) =
      some (loadingPool counted (operations ++ [.calling])) := by
    refine next_operate ?_
    show (if f.providerLoads = f.providerLoads then some (counted, Operation.calling) else _) = _
    rw [if_pos rfl]
  have hloaded : (fleetProgram retryFleet).next (loadingPool counted (operations ++ [.calling]))
      (executorMoves (.operate operations.length)) =
      some (loadingPool counted (operations ++ [.releasing answer])) := next_operate rfl
  have hreleased : (fleetProgram retryFleet).next
      (loadingPool counted (operations ++ [.releasing answer]))
      (executorMoves (.operate operations.length)) =
      some (loadingPool { counted with loadSlots := counted.loadSlots - 1 }
        (operations ++ [.returned answer])) := next_operate rfl
  have hrun := (((((run.snoc hcalled).snoc hacquired).snoc hread).snoc hswapped).snoc hloaded).snoc
    hreleased
  simp only [List.append_assoc, List.cons_append, List.nil_append] at hrun
  refine ⟨_, _, _, hrun, ?_, rfl, ?_, ?_⟩
  · show f.loadSlots + 1 - 1 = 0
    omega
  · intro e he
    simp only [List.mem_cons, List.not_mem_nil, or_false] at he
    rcases he with rfl | rfl | rfl | rfl | rfl | rfl <;> exact inLoad_loadingPool
  · have hcall : startsLoadOf 0 (⟨loadingPool f operations, executorMoves (.call false),
        loadingPool f (operations ++ [.acquiring])⟩ : FleetMove Empty) = false := rfl
    simp only [List.countP_cons, List.countP_nil, hcall, startsLoadOf_operate]
    rfl

/-- The calls after the first are over the limit, as long as the counter has not wrapped around. -/
theorem run_overLimit : letI := unaryRuntime
    ∀ n, FleetRun retryFleet ts (loadingPool f operations) → 0 < operations.length →
      operations.length + n < 2 ^ 64 →
      ∃ us, FleetRun retryFleet (ts ++ us)
          (loadingPool f (operations ++ List.replicate n overLimit)) ∧
        ∀ e ∈ us, InLoad e 0 := by
  let _ := unaryRuntime
  intro n run hpos hlt
  induction n with
  | zero =>
    refine ⟨[], ?_, by simp⟩
    rw [List.append_nil, List.replicate_zero, List.append_nil]
    exact run
  | succ n ih =>
    obtain ⟨us, hrun, hin⟩ := ih (by omega)
    have hbegin : (beginOperation retryFleet
        (operations ++ List.replicate n overLimit).length false : Operation Empty) = overLimit := by
      rw [List.length_append, List.length_replicate, beginOperation, if_pos]
      · rfl
      · show (1 : Int) < _
        rw [Nat.mod_eq_of_lt (by omega)]
        omega
    have hnext : (fleetProgram retryFleet).next
        (loadingPool f (operations ++ List.replicate n overLimit)) (executorMoves (.call false)) =
        some (loadingPool f (operations ++ List.replicate (n + 1) overLimit)) := by
      rw [next_call, hbegin, List.replicate_succ', List.append_assoc]
    have hrun' := hrun.snoc hnext
    rw [List.append_assoc] at hrun'
    refine ⟨_, hrun', fun e he => ?_⟩
    rcases List.mem_append.mp he with he | he
    · exact hin e he
    · rw [List.mem_singleton.mp he]
      exact inLoad_loadingPool

/-- The executor calls the operation 2^64 times; the counter wraps around, and the last call loads a
second time where one load is allowed. -/
theorem load_budget_exceeded_wraparound :
    letI := unaryRuntime
    newFleet .sorted retryFleet = .ok retryFleet ∧
    ∃ (ts : List (FleetMove Empty)) (s : FleetPool Empty), FleetRun retryFleet ts s ∧
      ¬ LoadBudget retryFleet ts s := by
  let _ := unaryRuntime
  refine ⟨by decide +kernel, ?_⟩
  -- the bootstrap enters its load
  let entered : Fleet Empty := { Fleet.new with bootstrapWG := 0 + 1, loadWG := 0 + 1 }
  obtain ⟨⟨ts, s⟩, hplay, hs⟩ : ∃ x, play (fleetProgram retryFleet).next ⟨.new, []⟩
      (.call (.bootstrap false) :: stepsAt 0 2 100) = some x ∧ x.2 = loadingPool entered [] :=
    ⟨_, rfl, rfl⟩
  have run : FleetRun retryFleet ts s := trace_of_play .start hplay
  dsimp only at hs
  rw [hs] at run
  -- the first call, and those that are over the limit
  obtain ⟨us₁, f₁, operation₁, run₁, hslots₁, hloads₁, hin₁, hcount₁⟩ :=
    run_admitted run rfl (by decide) rfl
  obtain ⟨us₂, run₂, hin₂⟩ := run_overLimit (2 ^ 64 - 2) run₁ (by simp) (by simp)
  -- the call whose number is 0 again
  have hlength : ([] ++ [operation₁] ++ List.replicate (2 ^ 64 - 2) overLimit).length =
      2 ^ 64 - 1 := by
    simp only [List.nil_append, List.length_append, List.length_singleton, List.length_replicate]
    omega
  obtain ⟨us₃, f₃, operation₃, run₃, -, -, hin₃, hcount₃⟩ :=
    run_admitted run₂ hslots₁ (by rw [hloads₁]; decide) (by rw [hlength]; rfl)
  refine ⟨_, _, run₃, fun hbudget => ?_⟩
  have hle := hbudget.perLoad ts (us₁ ++ us₂ ++ us₃) [] 0 (by simp) ?_
  · rw [List.countP_append, List.countP_append, hcount₁, hcount₃] at hle
    change _ ≤ (1 : Int) at hle
    omega
  · intro e he
    simp only [List.mem_append] at he
    rcases he with (he | he) | he
    · exact hin₁ e he
    · exact hin₂ e he
    · exact hin₃ e he

end Wraparound

end FeatureFlags
