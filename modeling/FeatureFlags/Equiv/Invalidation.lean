import FeatureFlags.Equiv.Activation
import FeatureFlags.Equiv.Ledger

/-!
# Invalidations

`Invalidate` keeps the last sequence of each stream, and the revision that the fleet should converge
to.

* `Classifies`: what the section of `Invalidate` makes of an event, one case for each way through
  it.
* `classification`: the event that a step of a run classifies; `acceptedOn`: the sequences that a
  run has accepted on a stream.
* `invalidations_accounted`: streams, sequences and gaps of a run.
-/

namespace FeatureFlags

open Go Lib

variable {κ : Type}

/-! ### The section of `Invalidate` -/

def Fleet.lastSequence (f : Fleet κ) (event : Invalidation) : UInt64 :=
  f.invalidations.getD event.stream 0

variable (config : FleetConfig) (now : Time) (event : Invalidation) (f : Fleet κ) in
/-- What the section of `Invalidate` makes of an event: its outcome, and the fleet. -/
inductive Classifies : Except GoError (InvalidationResult × Bool) → Fleet κ → Prop
  | full (err : GoError) : Classifies (.error err) f
  | late {result : InvalidationResult}
      (order : event.sequence = f.lastSequence event ∧ result.disposition = .duplicate ∨
        event.sequence < f.lastSequence event ∧ result.disposition = .reordered)
      (gap : result.gap = false) (previous : result.previousSequence = f.lastSequence event) :
      Classifies (.ok (result, false)) f
  | accepted {result : InvalidationResult} {refreshes : Bool} {f' : Fleet κ}
      (order : f.lastSequence event < event.sequence)
      (gap : result.gap = decide ((f.lastSequence event).toNat + 1 < event.sequence.toNat))
      (previous : result.previousSequence = f.lastSequence event)
      (room : event.stream ∈ f.invalidations ∨ f.invalidations.len < config.maxInvalidationStreams)
      (invalidations : f'.invalidations = f.invalidations.insert event.stream event.sequence)
      (gaps : f'.invalidationGaps = if result.gap = true ∧ f.invalidationGaps < maxUint64 then
        f.invalidationGaps + 1 else f.invalidationGaps)
      (target : refreshes = true ∧ result.disposition = .unset ∧ f'.convergence = addDuration now
        config.convergenceWindow ∧ f'.convergenceRevision = event.revision ∨ refreshes = false ∧
        result.disposition = .current ∧ result.gap = false ∧ f.active.isSome = true ∧ event.revision
        = activeRevision f.active ∧ f'.convergence = f.convergence ∧ f'.convergenceRevision =
        f.convergenceRevision) :
      Classifies (.ok (result, refreshes)) f'

/-- After a greater sequence, `last + 1` does not wrap around. -/
theorem toNat_add_one {last sequence : UInt64} (h : last < sequence) :
    (last + 1).toNat = last.toNat + 1 := by
  have hlt := UInt64.lt_iff_toNat_lt.mp h
  have hbound := sequence.toNat_lt
  rw [UInt64.toNat_add]
  exact Nat.mod_eq_of_lt (by simp; omega)

theorem gap_eq {last sequence : UInt64} (h : last < sequence) :
    (if last = 0 then decide (sequence > 1) else decide (sequence > last + 1)) =
      decide (last.toNat + 1 < sequence.toNat) := by
  split_ifs with hzero
  · rw [hzero]
    exact decide_eq_decide.mpr UInt64.lt_iff_toNat_lt
  · refine decide_eq_decide.mpr ?_
    rw [gt_iff_lt, UInt64.lt_iff_toNat_lt, toNat_add_one h]

theorem Fleet.classifies_invalidate (config : FleetConfig) (now : Time) (event : Invalidation)
    (f : Fleet κ) :
    Classifies config now event f (f.invalidate config now event).1
      (f.invalidate config now event).2 := by
  unfold Fleet.invalidate
  dsimp only
  by_cases hfull :
      event.stream ∉ f.invalidations ∧ f.invalidations.len ≥ config.maxInvalidationStreams
  · rw [if_pos hfull]
    exact .full _
  rw [if_neg hfull]
  by_cases hsame : event.sequence = f.invalidations.getD event.stream 0
  · rw [if_pos hsame]
    exact .late (.inl ⟨hsame, rfl⟩) rfl rfl
  rw [if_neg hsame]
  by_cases hless : event.sequence < f.invalidations.getD event.stream 0
  · rw [if_pos hless]
    exact .late (.inr ⟨hless, rfl⟩) rfl rfl
  rw [if_neg hless]
  have horder : f.lastSequence event < event.sequence :=
    UInt64.lt_of_le_of_ne (UInt64.not_lt.mp hless) (Ne.symm hsame)
  have hroom : event.stream ∈ f.invalidations ∨
      f.invalidations.len < config.maxInvalidationStreams := by
    rwa [not_and_or, not_not, not_le] at hfull
  rw [gap_eq (show f.invalidations.getD event.stream 0 < event.sequence from horder)]
  by_cases hcurrent :
      decide ((f.invalidations.getD event.stream 0).toNat + 1 < event.sequence.toNat) = false ∧
        f.active.isSome = true ∧ event.revision = activeRevision f.active
  · rw [if_pos hcurrent]
    exact .accepted horder rfl rfl hroom rfl rfl
      (.inr ⟨rfl, rfl, hcurrent.1, hcurrent.2.1, hcurrent.2.2, rfl, rfl⟩)
  · rw [if_neg hcurrent]
    exact .accepted horder rfl rfl hroom rfl rfl (.inl ⟨rfl, rfl, rfl, rfl⟩)

/-! ### Events of a run -/

/-- The event that is classified in this step, and its outcome. -/
def classification (config : FleetConfig) (e : FleetMove κ) :
    Option (Invalidation × Except GoError (InvalidationResult × Bool)) :=
  match e.action with
  | .step id _ =>
    match e.before.threads[id]?.bind FleetThread.task with
    | some (.classify event now) => some (event, (e.before.shared.invalidate config now event).1)
    | _ => none
  | .call _ => none

/-- The event is neither refused nor a duplicate nor reordered. -/
def isAccepted : Except GoError (InvalidationResult × Bool) → Bool
  | .ok (result, _) => result.disposition ≠ .duplicate ∧ result.disposition ≠ .reordered
  | .error _ => false

/-- The event is flagged as a gap. -/
def isGap : Except GoError (InvalidationResult × Bool) → Bool
  | .ok (result, _) => result.gap
  | .error _ => false

/-- The sequence that is accepted on the stream in this step. -/
def acceptedAt (config : FleetConfig) (stream : Bytes) (e : FleetMove κ) : Option Nat :=
  (classification config e).bind fun x =>
    if x.1.stream = stream ∧ isAccepted x.2 = true then some x.1.sequence.toNat else none

/-- The sequences that have been accepted on a stream, oldest first. -/
def acceptedOn (config : FleetConfig) (ts : List (FleetMove κ)) (stream : Bytes) : List Nat :=
  ts.filterMap (acceptedAt config stream)

/-- In this step an event is flagged as a gap. -/
def flagsGap (config : FleetConfig) (e : FleetMove κ) : Bool :=
  (classification config e).any fun x => isGap x.2

/-- The event that the thread `id` has classified in one of the steps. -/
def ClassifiedBy (config : FleetConfig) (ts : List (FleetMove κ)) (id : Nat) (event : Invalidation)
    (result : InvalidationResult) (refreshes : Bool) : Prop :=
  ∃ (k : Nat) (e : FleetMove κ) (o : Outside κ), ts[k]? = some e ∧ e.action = .step id o ∧
    classification config e = some (event, .ok (result, refreshes))

/-- The result that a caller gets says about the event what its classification says. -/
structure Reports (result classified : InvalidationResult) : Prop where
  gap : result.gap = classified.gap
  previous : result.previousSequence = classified.previousSequence
  duplicate : result.disposition = .duplicate ↔ classified.disposition = .duplicate
  reordered : result.disposition = .reordered ↔ classified.disposition = .reordered

/-- What the fleet knows about its streams in the state `s`, after the steps `ts`. -/
structure InvalidationsAccounted (config : FleetConfig) (ts : List (FleetMove κ))
    (s : FleetPool κ) : Prop where
  streams : s.shared.invalidations.len ≤ config.maxInvalidationStreams
  last : ∀ stream, s.shared.invalidations[stream]?.map UInt64.toNat =
    (acceptedOn config ts stream).max?
  once : ∀ stream, (acceptedOn config ts stream).Nodup
  /-- The flag of an event compares it with the last sequence before it, without a wrap-around. -/
  gap : ∀ (k : Nat) (e : FleetMove κ) (event : Invalidation) (result : InvalidationResult)
    (refreshes : Bool), ts[k]? = some e →
    classification config e = some (event, .ok (result, refreshes)) →
    result.previousSequence = e.before.shared.lastSequence event ∧
      (result.gap = true ↔ (e.before.shared.lastSequence event).toNat + 1 < event.sequence.toNat) ∧
      (isAccepted (.ok (result, refreshes)) = true → (e.before.shared.lastSequence event + 1).toNat
        = (e.before.shared.lastSequence event).toNat + 1)
  gaps : s.shared.invalidationGaps = min (ts.countP (flagsGap config)) maxUint64
  reported : ∀ (id : Nat) (result : InvalidationResult) (err : Option GoError),
    s.threads[id]? = some (.invalidate (.finished (result, err))) →
    result = .zero ∧ err.isSome = true ∨ ∃ event classified refreshes,
      ClassifiedBy config ts id event classified refreshes ∧ Reports result classified

theorem newFleet_streams {ord : MapOrder} {raw config : FleetConfig}
    (h : newFleet ord raw = .ok config) : 0 < config.maxInvalidationStreams := by
  simp only [newFleet, bind_eq_ok, rejectIf_eq_ok, exists_const, pure_eq_ok, not_or,
    not_le, not_lt] at h
  obtain ⟨-, -, -, -, -, -, ⟨-, -, -, hstreams, -⟩, -, -, policies, -, rfl⟩ := h
  exact hstreams

/-- The last number of an increasing list is its greatest. -/
theorem le_of_getLast? {l : List Nat} {m n : Nat} (h : l.Pairwise (· < ·))
    (hlast : l.getLast? = some m) (hn : n ∈ l) : n ≤ m := by
  obtain ⟨l', rfl⟩ := List.getLast?_eq_some_iff.mp hlast
  rcases List.mem_append.mp hn with hn | hn
  · exact ((List.pairwise_append.mp h).2.2 n hn m (List.mem_singleton_self m)).le
  · rw [List.mem_singleton.mp hn]

section Runs

variable [CustomStrategy κ] [Runtime] {config : FleetConfig} {ts : List (FleetMove κ)}
  {s : FleetPool κ} {k : Nat} {e : FleetMove κ}

variable {result : InvalidationResult}

section

variable (run : FleetRun config ts s)
include run

/-- A step classifies an event, or leaves what is known about the streams alone. -/
theorem classification_cases (hk : ts[k]? = some e) :
    (∃ event now outcome, classification config e = some (event, outcome) ∧
      Classifies config now event e.before.shared outcome e.after.shared) ∨
    classification config e = none ∧
      e.after.shared.invalidations = e.before.shared.invalidations ∧
      e.after.shared.invalidationGaps = e.before.shared.invalidationGaps ∧
      e.after.shared.convergence = e.before.shared.convergence ∧
      e.after.shared.convergenceRevision = e.before.shared.convergenceRevision := by
  cases haction : e.action with
  | call request =>
    have hsame : e.after.shared = e.before.shared := by
      by_contra hne
      obtain ⟨id, o, hstep⟩ := run.exists_step_of_ne hk hne
      cases haction.symm.trans hstep
    exact .inr ⟨by simp only [classification, haction], by rw [hsame], by rw [hsame],
      by rw [hsame], by rw [hsame]⟩
  | step id o =>
    obtain ⟨thread, thread', spawned, hthread, -, heq⟩ := run.step_at hk haction
    have hsteps := (steps_of_fleetStep heq).stepsTask
    have hclass : classification config e = match thread.task with
        | some (.classify event now) =>
          some (event, (e.before.shared.invalidate config now event).1)
        | _ => none := by
      simp only [classification, haction, hthread, Option.bind_some]
    generalize thread.task = before at hsteps hclass
    generalize thread'.task = after at hsteps
    cases hsteps with
    | load step =>
      obtain ⟨_, _, _, hframe⟩ := loadStep_frame step
      exact .inr ⟨hclass, by rw [hframe], by rw [hframe], by rw [hframe], by rw [hframe]⟩
    | classify after =>
      rename_i event now
      refine .inl ⟨event, now, _, hclass, ?_⟩
      rw [after]
      exact Fleet.classifies_invalidate config now event e.before.shared
    | other same begins =>
      exact .inr ⟨hclass, congrArg Fleet.Ledger.invalidations same,
        congrArg Fleet.Ledger.invalidationGaps same, congrArg Fleet.Ledger.convergence same,
        congrArg Fleet.Ledger.convergenceRevision same⟩

/-- A step accepts a sequence on the stream, or leaves its last sequence alone. -/
theorem acceptedAt_cases (hk : ts[k]? = some e) (stream : Bytes) :
    (∃ sequence : UInt64, acceptedAt config stream e = some sequence.toNat ∧
      e.before.shared.invalidations.getD stream 0 < sequence ∧
      e.after.shared.invalidations[stream]? = some sequence) ∨
    acceptedAt config stream e = none ∧
      e.after.shared.invalidations[stream]? = e.before.shared.invalidations[stream]? := by
  unfold acceptedAt
  rcases classification_cases run hk with ⟨event, now, outcome, hclass, hmove⟩ | ⟨hclass, hsame, -⟩
  · rw [hclass, Option.bind_some]
    dsimp only
    generalize e.before.shared = f at hmove ⊢
    generalize e.after.shared = f' at hmove ⊢
    cases hmove with
    | full err => exact .inr ⟨if_neg (by simp [isAccepted]), rfl⟩
    | late order =>
      refine .inr ⟨if_neg ?_, rfl⟩
      rcases order with ⟨-, h⟩ | ⟨-, h⟩ <;> simp [isAccepted, h]
    | accepted order gap previous room invalidations gaps target =>
      rename_i result refreshes
      have haccepted : isAccepted (.ok (result, refreshes)) = true := by
        rcases target with ⟨-, h, -⟩ | ⟨-, h, -⟩ <;> simp [isAccepted, h]
      by_cases hstream : event.stream = stream
      · subst hstream
        refine .inl ⟨event.sequence, if_pos ⟨rfl, haccepted⟩, order, ?_⟩
        rw [invalidations, GoMap.lookup_insert_self]
      · refine .inr ⟨if_neg fun h => hstream h.1, ?_⟩
        rw [invalidations, GoMap.lookup_insert_ne _ _ hstream]
  · rw [hclass, hsame]
    exact .inr ⟨rfl, rfl⟩

/-- The sequences that are accepted on a stream increase, up to its last one. -/
theorem acceptedOn_spec (stream : Bytes) :
    (acceptedOn config ts stream).Pairwise (· < ·) ∧
      s.shared.invalidations[stream]?.map UInt64.toNat =
        (acceptedOn config ts stream).getLast? := by
  induction run with
  | start => exact ⟨List.Pairwise.nil, rfl⟩
  | snoc run next ih =>
    rename_i ts s t a
    obtain ⟨hincreasing, hlast⟩ := ih
    have hsnoc : acceptedOn config (ts ++ [⟨s, a, t⟩]) stream =
        acceptedOn config ts stream ++ (acceptedAt config stream ⟨s, a, t⟩).toList := by
      simp only [acceptedOn, List.filterMap_append]
      cases h : acceptedAt config stream (⟨s, a, t⟩ : FleetMove κ) <;> simp [h]
    rw [hsnoc]
    rcases acceptedAt_cases (.snoc run next) List.getElem?_concat_length stream with
      ⟨sequence, haccepted, hless, hafter⟩ | ⟨hnone, hsame⟩
    · dsimp only at hless hafter
      rw [haccepted, hafter]
      refine ⟨List.pairwise_append.mpr ⟨hincreasing, List.pairwise_singleton _ _, ?_⟩, by simp⟩
      intro n hn m hm
      rw [List.mem_singleton.mp hm]
      -- all earlier ones are at most the last one
      have hle : n ≤ (s.shared.invalidations.getD stream 0).toNat := by
        rw [Std.ExtTreeMap.getD_eq_getD_getElem?]
        cases hlookup : s.shared.invalidations[stream]? with
        | none =>
          rw [hlookup, Option.map_none, eq_comm, List.getLast?_eq_none_iff] at hlast
          rw [hlast] at hn
          cases hn
        | some last =>
          rw [hlookup, Option.map_some, eq_comm] at hlast
          exact le_of_getLast? hincreasing hlast hn
      exact lt_of_le_of_lt hle (UInt64.lt_iff_toNat_lt.mp hless)
    · dsimp only at hsame
      rw [hnone, hsame, Option.toList_none, List.append_nil]
      exact ⟨hincreasing, hlast⟩

theorem streams_le (hpos : 0 ≤ config.maxInvalidationStreams) :
    s.shared.invalidations.len ≤ config.maxInvalidationStreams := by
  refine run.along
    (fun s => s.shared.invalidations.len ≤ config.maxInvalidationStreams) hpos ?_
  intro k e hk hle
  rcases classification_cases run hk with ⟨event, now, outcome, -, hmove⟩ | ⟨-, hsame, -⟩
  · generalize e.before.shared = f at hmove hle
    generalize e.after.shared = f' at hmove ⊢
    cases hmove with
    | full | late => exact hle
    | accepted order gap previous room invalidations =>
      rw [invalidations]
      by_cases hmem : event.stream ∈ f.invalidations
      · rw [GoMap.len_insert_of_mem _ hmem]
        exact hle
      · rw [GoMap.len_insert_of_not_mem _ hmem]
        exact room.resolve_left hmem
  · rw [hsame]
    exact hle

/-- The counter of the gaps is the number of events that were flagged, up to its bound. -/
theorem invalidationGaps_eq :
    s.shared.invalidationGaps = min (ts.countP (flagsGap config)) maxUint64 := by
  induction run with
  | start => rfl
  | snoc run next ih =>
    rename_i ts s t a
    have hflags (outcome : Except GoError (InvalidationResult × Bool)) (event : Invalidation)
        (h : classification config ⟨s, a, t⟩ = some (event, outcome)) :
        flagsGap config ⟨s, a, t⟩ = isGap outcome := by
      unfold flagsGap
      rw [h, Option.any_some]
    rw [List.countP_append, List.countP_singleton]
    rcases classification_cases (.snoc run next) List.getElem?_concat_length with
      ⟨event, now, outcome, hclass, hmove⟩ | ⟨hclass, -, hsame, -⟩
    · rw [hflags outcome event hclass]
      dsimp only at hmove
      generalize s.shared = f at hmove ih
      generalize t.shared = f' at hmove ⊢
      cases hmove with
      | full err => exact ih
      | late order gap =>
        simp only [isGap, gap]
        exact ih
      | accepted order gap previous room invalidations gaps target =>
        rename_i result refreshes
        rw [gaps, ih, show isGap (.ok (result, refreshes)) = result.gap from rfl]
        by_cases hgap : result.gap = true
        · simp only [hgap, true_and, if_true]
          split_ifs <;> omega
        · rw [if_neg fun h => hgap h.1, if_neg hgap, Nat.add_zero]
    · have hfalse : flagsGap config ⟨s, a, t⟩ = false := by
        unfold flagsGap
        rw [hclass, Option.any_none]
      dsimp only at hsame
      rw [hfalse, hsame, ih]
      rfl

/-- The flag of an event, and the sequence before it. -/
theorem gap_of_classification (hk : ts[k]? = some e) {event : Invalidation} {refreshes : Bool}
    (h : classification config e = some (event, .ok (result, refreshes))) :
    result.previousSequence = e.before.shared.lastSequence event ∧
      (result.gap = true ↔ (e.before.shared.lastSequence event).toNat + 1 < event.sequence.toNat) ∧
      (isAccepted (.ok (result, refreshes)) = true →
        (e.before.shared.lastSequence event + 1).toNat =
          (e.before.shared.lastSequence event).toNat + 1) := by
  rcases classification_cases run hk with ⟨event', now, outcome, hclass, hmove⟩ | ⟨hclass, -⟩
  · cases h.symm.trans hclass
    generalize e.before.shared = f at hmove ⊢
    generalize e.after.shared = f' at hmove
    cases hmove with
    | late order gap previous =>
      refine ⟨previous, ?_, fun haccepted => ?_⟩
      · have hle : event.sequence.toNat ≤ (f.lastSequence event).toNat := by
          rcases order with ⟨h, -⟩ | ⟨h, -⟩
          · rw [h]
          · exact (UInt64.lt_iff_toNat_lt.mp h).le
        rw [gap]
        simp only [Bool.false_eq_true, false_iff]
        omega
      · rcases order with ⟨-, h⟩ | ⟨-, h⟩ <;> simp [isAccepted, h] at haccepted
    | accepted order gap previous =>
      refine ⟨previous, ?_, fun _ => toNat_add_one order⟩
      rw [gap, decide_eq_true_iff]
  · rw [h] at hclass
    cases hclass

end

/-! ### What the callers are told -/

omit [CustomStrategy κ] [Runtime] in
theorem reports_invalidated {event : Invalidation} {refresh : RefreshResult κ}
    {err : Option GoError} (h : result.disposition = .unset) :
    Reports (Fleet.invalidated event result refresh err).1 result := by
  unfold Fleet.invalidated
  dsimp only
  split_ifs <;> exact ⟨rfl, rfl, by simp [h], by simp [h]⟩

/-- What a call of `Invalidate` knows of its event. -/
abbrev FleetThread.Reported (config : FleetConfig) (ts : List (FleetMove κ)) (id : Nat) :
    FleetThread κ → Prop
  | .invalidate (.running (.refreshing event result _)) =>
    result.disposition = .unset ∧ ClassifiedBy config ts id event result true
  | .invalidate (.finished (result, err)) =>
    result = .zero ∧ err.isSome = true ∨ ∃ event classified refreshes,
      ClassifiedBy config ts id event classified refreshes ∧ Reports result classified
  | _ => True

/-- A call of `Invalidate` reports what its section has made of the event. -/
theorem reports_of_finished (run : FleetRun config ts s) {id : Nat} {err : Option GoError}
    (hthread : s.threads[id]? = some (.invalidate (.finished (result, err)))) :
    result = .zero ∧ err.isSome = true ∨ ∃ event classified refreshes,
      ClassifiedBy config ts id event classified refreshes ∧ Reports result classified := by
  refine Program.Run.thread_along (FleetThread.Reported config ts) run ?_ ?_ hthread
  · intro id request
    simp only [fleetProgram]
    cases request <;> simp only [FleetRequest.thread, FleetThread.Reported]
    case invalidate nilContext event =>
      split_ifs
      · exact .inl ⟨rfl, rfl⟩
      · trivial
  · intro k e id o thread thread' spawned hk haction hbefore hafter hJ heq
    have hsteps := steps_of_fleetStep heq
    generalize e.after.shared = f' at hsteps
    refine ⟨?_, fun j u hu => ?_⟩
    · cases hsteps with
      | invalidate step =>
        rename_i stage p
        cases stage <;> simp only [invalidateStep] at step
        case observing event =>
          split_ifs at step <;> cases step
          · exact .inl ⟨rfl, rfl⟩
          · trivial
        case classifying event now =>
          have hclass : classification config e =
              some (event, (e.before.shared.invalidate config now event).1) := by
            simp only [classification, haction, hbefore, Option.bind_some]
            rfl
          have hmove := Fleet.classifies_invalidate config now event e.before.shared
          split at step <;> rename_i heq' <;> rw [heq'] at hclass hmove <;> cases step
          · exact .inl ⟨rfl, rfl⟩
          · refine ⟨?_, k, e, o, hk, haction, hclass⟩
            cases hmove with
            | accepted _ _ _ _ _ _ target =>
              rcases target with ⟨-, h, -⟩ | ⟨h, -⟩
              · exact h
              · cases h
          · exact .inr ⟨event, _, false, ⟨k, e, o, hk, haction, hclass⟩, rfl, rfl, .rfl, .rfl⟩
        case refreshing event result stage =>
          obtain ⟨hunset, hclassified⟩ := hJ
          obtain ⟨q, hq, rfl⟩ := Progress.inside_eq_some.mp step
          cases q with
          | running => exact ⟨hunset, hclassified⟩
          | finished x => exact .inr ⟨event, result, true, hclassified, reports_invalidated hunset⟩
      | _ => trivial
    · rcases hsteps.mem_spawned hu with rfl | rfl | rfl <;> trivial

/-! ### The account -/

/-- **The streams, sequences and gaps of a run add up**, whoever delivers the events and in which
order. -/
theorem invalidations_accounted {ord : MapOrder} {raw : FleetConfig}
    (accepted : newFleet ord raw = .ok config) (run : FleetRun config ts s) :
    InvalidationsAccounted config ts s := by
  refine ⟨streams_le run (newFleet_streams accepted).le, fun stream => ?_, fun stream => ?_,
    fun k e event result refreshes hk h => ?_, invalidationGaps_eq run,
    fun id result err hthread => reports_of_finished run hthread⟩
  · obtain ⟨hincreasing, hlast⟩ := acceptedOn_spec run stream
    rw [hlast]
    cases hmax : (acceptedOn config ts stream).getLast? with
    | none =>
      rw [List.getLast?_eq_none_iff] at hmax
      rw [hmax]
      rfl
    | some last =>
      refine (List.max?_eq_some_iff.mpr ⟨List.mem_of_getLast? hmax, fun n hn => ?_⟩).symm
      exact le_of_getLast? hincreasing hmax hn
  · exact (acceptedOn_spec run stream).1.imp Nat.ne_of_lt
  · exact gap_of_classification run hk h

end Runs

/-- An event of the stream `s`. -/
def eventOf (sequence : UInt64) (revision : Bytes) : Invalidation :=
  ⟨str "t", str "s", sequence, revision, ⟨1⟩⟩

/-- The thread `id` classifies an event. -/
def classifiesAt (id : Nat) (clock : Int) (event : Invalidation) :
    List (Act FleetRequest (Outside Empty)) :=
  .call (.invalidate false event) :: stepsAt id 2 clock

/-- A first event, one that skips a sequence, the same one again, and the one that was skipped. -/
def history : List (Act FleetRequest (Outside Empty)) :=
  classifiesAt 0 100 (eventOf 1 (str "a")) ++ classifiesAt 1 101 (eventOf 3 (str "b")) ++
  classifiesAt 2 102 (eventOf 3 (str "b")) ++ classifiesAt 3 103 (eventOf 2 (str "a"))

/-- Two of the four events are accepted, one of them as a gap. -/
theorem invalidations_accounted_history :
    letI := unaryRuntime
    ∃ (ts : List (FleetMove Empty)) (s : FleetPool Empty), FleetRun sampleFleet ts s ∧
      acceptedOn sampleFleet ts (str "s") = [1, 3] ∧ s.shared.invalidationGaps = 1 ∧
      InvalidationsAccounted sampleFleet ts s := by
  let _ := unaryRuntime
  obtain ⟨ts, s, run, -, hfacts⟩ := exists_fleetRun sampleFleet history
    (fun x => acceptedOn sampleFleet x.1 (str "s") = [1, 3] ∧ x.2.shared.invalidationGaps = 1)
    (by decide +kernel)
  simp only [decide_eq_true_eq] at hfacts
  exact ⟨ts, s, run, hfacts.1, hfacts.2, invalidations_accounted accepted_sampleFleet run⟩

end FeatureFlags
