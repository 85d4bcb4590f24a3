import Ivnp.Tunnel.TransitReplay
import Ivnp.Tunnel.VariableTransit

/-!
A record of a variable build is accepted and answered once within its replay lifetime,
whatever an adversary does to the rest of the messages that carry it. The reservation does
not see to that: its key is the hash of the whole payload. The record names the tunnel ID of
its circuit, and the circuit outlives the replay lifetime in the runtime, which has no second
circuit with that ID.
-/

namespace Ivnp.Tunnel

open Ivnp.Lib List Option

structure CircuitRun.Holds (run : CircuitRun) (circuit : Circuit) (generation : Nat) : Prop where
  entry : (run.runtime.tables circuit.direction).lookup circuit.id = some generation
  circuit : run.runtime.heap[generation]?.map Installation.circuit = some circuit

variable {token : CircuitToken} {action : CircuitAction} {hop : HopIdentity}

namespace CircuitRun

variable {run : CircuitRun} {circuit : Circuit} {generation : Nat}

theorem circuit_set {heap : List Installation} (generation : Nat) {index : Nat}
    {old new : Installation} (hold : heap[index]? = some old) (hnew : new.circuit = old.circuit) :
    (heap.set index new)[generation]?.map Installation.circuit =
      heap[generation]?.map Installation.circuit := by
  by_cases hindex : index = generation
  · subst hindex
    have hlt := (List.getElem?_eq_some_iff.mp hold).1
    rw [getElem?_set_self hlt, hold, map_some, map_some, hnew]
  · rw [getElem?_set_ne hindex]

theorem circuit_release (run : CircuitRun) (released generation : Nat) :
    (run.release released).runtime.heap[generation]?.map Installation.circuit =
      run.runtime.heap[generation]?.map Installation.circuit := by
  unfold CircuitRun.release
  cases hfound : run.runtime.heap[released]? with
  | none => rfl
  | some installed =>
    dsimp only
    split <;> exact circuit_set _ hfound rfl

variable (h : run.Holds circuit generation)
include h

theorem Holds.release (released : Nat) : (run.release released).Holds circuit generation :=
  ⟨(run.lookup_release _ _ _).trans h.entry, (run.circuit_release _ _).trans h.circuit⟩

variable {outcome : Except CircuitError Runtime} {p : Nat → Installation → Bool} {added : Circuit}

theorem Holds.retireIf
    (hp : ∀ installed, installed.circuit = circuit → p generation installed = false)
    (direction : Direction) (id : UInt32) :
    (retireIf p direction run id).Holds circuit generation := by
  unfold CircuitRun.retireIf
  split
  next hfound =>
    unfold CircuitRun.retire
    split
    · exact h
    next found hentry =>
    apply Holds.release
    refine ⟨?_, h.circuit⟩
    change (Function.update run.runtime.tables direction _ circuit.direction).lookup circuit.id = _
    rw [lookup_update_of_ne (fun key hne => AList.lookup_erase_ne hne)]
    · exact h.entry
    · rintro ⟨rfl, rfl⟩
      rw [CircuitRun.found, h.entry, Option.any_some, Option.any_eq_true] at hfound
      obtain ⟨installed, hinstalled, htrue⟩ := hfound
      have hcircuit := h.circuit
      rw [hinstalled, map_some, some_inj] at hcircuit
      rw [hp _ hcircuit] at htrue
      cases htrue
  · exact h

theorem Holds.retireAll
    (hp : ∀ installed, installed.circuit = circuit → p generation installed = false)
    (direction : Direction) (shard : UInt32) :
    (run.retireAll p direction shard).Holds circuit generation :=
  run_preserves (I := (Holds · circuit generation)) (fun _ id hrun => hrun.retireIf hp _ id) h _

theorem Holds.pin {pinned : Nat} {installed : Installation}
    (hpinned : run.runtime.heap[pinned]? = some installed) :
    (run.pin pinned installed).Holds circuit generation := by
  refine ⟨h.entry, Eq.trans ?_ h.circuit⟩
  exact circuit_set _ hpinned rfl

theorem Holds.pin_admitted (now : UInt64)
    (direction : Direction) (id : UInt32) (wanted : Option Nat) :
    (match run.admitted now direction id wanted with
      | none => run
      | some (found, installed) => run.pin found installed).Holds circuit generation := by
  split
  · exact h
  next found installed hadmitted => exact h.pin (admitted_eq_some hadmitted).2

theorem Holds.installs (houtcome : Installs run.runtime added token outcome)
    (htoken : token.generation ≠ some generation) :
    (run.installs added.direction added.id outcome).Holds circuit generation := by
  cases houtcome with
  | fails error => exact h
  | succeeds now next hinstall =>
    obtain ⟨hplace, -, rfl⟩ := Runtime.install_eq_ok hinstall
    constructor
    · change (Function.update run.runtime.tables added.direction _ circuit.direction).lookup
        circuit.id = _
      rw [lookup_update_of_ne (fun key hne => AList.lookup_insert_ne hne)]
      · exact h.entry
      · rintro ⟨hdirection, hid⟩
        have hentry := h.entry
        rw [hdirection, hid] at hentry
        cases htokens : token.generation with
        | none =>
          rw [htokens] at hplace
          exact absurd (hentry.symm.trans hplace.1) nofun
        | some other =>
          rw [htokens] at hplace
          exact htoken (htokens.trans (hplace.symm.trans hentry))
    · have hlt : generation < run.runtime.heap.length := by
        obtain ⟨installed, hinstalled, -⟩ := map_eq_some_iff.mp h.circuit
        exact (List.getElem?_eq_some_iff.mp hinstalled).1
      change (run.runtime.heap ++ [_])[generation]?.map _ = _
      rw [List.getElem?_append_left hlt]
      exact h.circuit

/-- What a registered circuit is safe from: a token that is not its own, the owners of other
circuits, and a clock at which it has not expired. -/
theorem Holds.step (htoken : ∀ token ∈ action.token, token.generation ≠ some generation)
    (howner : circuit.owner = FixedBytes.zero 32)
    (hexpire : ∀ now shard, action = .expire now shard → expired circuit.expiresAt now = false) :
    (run.step action).Holds circuit generation := by
  have hnone : (CircuitToken.mk 0 none).generation ≠ some generation := nofun
  cases action with
  | registerOutbound now added =>
    exact h.installs (run.runtime.installs_installOutbound _ _ ⟨0, none⟩) hnone
  | registerInbound now added =>
    exact h.installs (run.runtime.installs_installInbound _ _ ⟨0, none⟩) hnone
  | replaceOutbound now token added =>
    exact h.installs (run.runtime.installs_replaceOutbound _ _ _) (htoken _ rfl)
  | replaceInbound now token added =>
    exact h.installs (run.runtime.installs_replaceInbound _ _ _) (htoken token rfl)
  | releaseReplaced _ | finish _ =>
    unfold CircuitRun.step
    dsimp only
    split
    · apply Holds.release
      exact ⟨h.entry, h.circuit⟩
    · exact h
  | removeCircuit token =>
    have hother := htoken _ rfl
    unfold CircuitRun.step
    dsimp only
    split
    · exact h
    next removed hremoved =>
    have hne : ∀ installed : Installation, installed.circuit = circuit →
        decide (generation = removed) = false := by
      rintro - -
      exact decide_eq_false fun heq => hother (heq ▸ hremoved)
    split
    · exact h
    · exact (h.retireIf hne .inbound token.id).retireIf hne .outbound token.id
  | removeOwner owner shard =>
    unfold CircuitRun.step
    dsimp only
    split
    · exact h
    next hzero =>
    have hne : ∀ installed : Installation, installed.circuit = circuit →
        decide (installed.circuit.owner = owner) = false := by
      rintro installed rfl
      exact decide_eq_false fun heq => hzero (heq.symm.trans howner)
    exact (h.retireAll hne .inbound _).retireAll hne .outbound shard
  | expire nowMillis shard =>
    have hlive : ∀ installed : Installation, installed.circuit = circuit →
        expired installed.circuit.expiresAt nowMillis = false := by
      rintro installed rfl
      exact hexpire _ _ rfl
    exact (h.retireAll hlive .inbound _).retireAll hlive .outbound shard
  | sendBlock now id wanted => exact h.pin_admitted _ .outbound id _
  | handleContext now id => exact h.pin_admitted _ .inbound id _

omit h

theorem length_heap_release (run : CircuitRun) (released : Nat) :
    (run.release released).runtime.heap.length = run.runtime.heap.length := by
  unfold CircuitRun.release
  split
  · rfl
  · dsimp only
    split <;> exact length_set

theorem length_heap_retireIf (run : CircuitRun) (p : Nat → Installation → Bool)
    (direction : Direction) (id : UInt32) :
    (retireIf p direction run id).runtime.heap.length = run.runtime.heap.length := by
  unfold CircuitRun.retireIf CircuitRun.retire
  split
  · split
    · rfl
    · exact length_heap_release _ _
  · rfl

theorem length_heap_retireAll (run : CircuitRun) (p : Nat → Installation → Bool)
    (direction : Direction) (shard : UInt32) :
    (run.retireAll p direction shard).runtime.heap.length = run.runtime.heap.length :=
  run_preserves (I := fun next => next.runtime.heap.length = run.runtime.heap.length)
    (fun next id h => (length_heap_retireIf next p _ id).trans h) rfl _

theorem length_heap_installs (run : CircuitRun) (houtcome : Installs run.runtime added token outcome) :
    run.runtime.heap.length ≤
      (run.installs added.direction added.id outcome).runtime.heap.length := by
  cases houtcome with
  | fails error => exact Nat.le_refl _
  | succeeds now next hinstall =>
    obtain ⟨-, -, rfl⟩ := Runtime.install_eq_ok hinstall
    change _ ≤ (run.runtime.heap ++ [_]).length
    rw [length_append]
    exact Nat.le_add_right _ _

theorem length_heap_admitted (run : CircuitRun) (now : UInt64) (direction : Direction)
    (id : UInt32) (wanted : Option Nat) :
    (match run.admitted now direction id wanted with
      | none => run
      | some (found, installed) => run.pin found installed).runtime.heap.length =
        run.runtime.heap.length := by
  split
  · rfl
  · exact length_set

/-- Installations are never forgotten, so that their numbers are never given again. -/
theorem length_heap_step (run : CircuitRun) (action : CircuitAction) :
    run.runtime.heap.length ≤ (run.step action).runtime.heap.length := by
  cases action with
  | registerOutbound now added =>
    exact run.length_heap_installs (run.runtime.installs_installOutbound _ _ ⟨0, none⟩)
  | registerInbound now added =>
    exact run.length_heap_installs (run.runtime.installs_installInbound _ _ ⟨0, none⟩)
  | replaceOutbound now token added =>
    exact run.length_heap_installs (run.runtime.installs_replaceOutbound _ _ _)
  | replaceInbound now token added =>
    exact run.length_heap_installs (run.runtime.installs_replaceInbound _ _ _)
  | releaseReplaced _ | finish _ =>
    unfold CircuitRun.step
    dsimp only
    split
    · rw [length_heap_release]
    · exact Nat.le_refl _
  | removeCircuit token =>
    unfold CircuitRun.step
    dsimp only
    split
    · exact Nat.le_refl _
    split
    · exact Nat.le_refl _
    · rw [length_heap_retireIf, length_heap_retireIf]
  | removeOwner owner shard =>
    unfold CircuitRun.step
    dsimp only
    split
    · exact Nat.le_refl _
    · rw [length_heap_retireAll, length_heap_retireAll]
  | expire nowMillis shard =>
    unfold CircuitRun.step
    rw [length_heap_retireAll, length_heap_retireAll]
  | sendBlock now id wanted => exact (run.length_heap_admitted _ .outbound id _).ge
  | handleContext now id => exact (run.length_heap_admitted _ .inbound id _).ge

theorem registerInbound_ok {now : UInt64} {added : InboundCircuit} {next : Runtime}
    (h : run.runtime.registerInbound now added = .ok next) :
    (run.runtime.tables .inbound).lookup added.id = none ∧ expired added.expiresAt now = false ∧
      (run.step (.registerInbound now added)).Holds (.inbound added) run.runtime.heap.length := by
  have hinstall : run.runtime.install now (.inbound added) ⟨0, none⟩ = .ok next := by
    unfold Runtime.registerInbound Runtime.installInbound at h
    split_ifs at h
    exact h
  obtain ⟨hfree, -, hnext⟩ := Runtime.install_eq_ok hinstall
  refine ⟨hfree.1, ?_, ?_⟩
  · unfold Runtime.install at hinstall
    split at hinstall
    · cases hinstall
    next hlive => exact Bool.eq_false_iff.mpr hlive
  · change (run.installs .inbound added.id (run.runtime.registerInbound now added)).Holds _ _
    rw [h, hnext]
    exact ⟨run.runtime.lookup_placed _, congrArg (Option.map _) getElem?_concat_length⟩

end CircuitRun

section Handled

variable (config : VariableConfig) (state : VariableTransitState) (now : UInt64)

/-- What a message does to the circuits: nothing, or a registration that is undone, or one
that stands, of the circuit that the record asks for. -/
inductive HandledVariable : VariableTransitState × TransitOutcome → Prop
  | kept {next : VariableTransitState} {outcome : TransitOutcome}
      (hcircuits : next.circuits = state.circuits)
      (houtcome : ∀ records entry, outcome ≠ .accepting records entry) :
      HandledVariable (next, outcome)
  | removed {next : VariableTransitState} {outcome : TransitOutcome} (circuit : InboundCircuit)
      (token : CircuitToken)
      (htoken : token.generation = some state.circuits.runtime.heap.length)
      (hcircuits : next.circuits =
        (state.circuits.step (.registerInbound now circuit)).step (.removeCircuit token))
      (houtcome : ∀ records entry, outcome ≠ .accepting records entry) :
      HandledVariable (next, outcome)
  | accepting {next : VariableTransitState} {records : List VariableRecord}
      {entry : AcceptedRecord} (hop : HopIdentity)
      (opened : VariableBuildRequest × VariableBuildKeys) (circuit : InboundCircuit)
      (hhop : config.hop = some hop)
      (hopened : hop.openRequest config.crypto entry.record = some opened)
      (hid : circuit.id = opened.1.receiveTunnelID)
      (howner : circuit.owner = FixedBytes.zero 32)
      (hexpires : circuit.expiresAt = now + 660000)
      (hregistered : ∃ runtime, state.circuits.runtime.registerInbound now circuit = .ok runtime)
      (hcircuits : next.circuits = state.circuits.step (.registerInbound now circuit))
      (hentry : entry.started = now ∧ entry.id = circuit.id ∧
        entry.generation = state.circuits.runtime.heap.length) :
      HandledVariable (next, .accepting records entry)

variable {config state now}

theorem registerVariable_eq_some {circuits next : CircuitRun} {request : VariableBuildRequest}
    {record : VariableRecord} {endpoint : EndpointRef} {entry : AcceptedRecord}
    (h : VariableConfig.registerVariable circuits request record endpoint now =
      some (next, entry)) :
    ∃ circuit : InboundCircuit, circuit.id = request.receiveTunnelID ∧
      circuit.owner = FixedBytes.zero 32 ∧ circuit.expiresAt = now + 660000 ∧
      (∃ runtime, circuits.runtime.registerInbound now circuit = .ok runtime) ∧
      next = circuits.step (.registerInbound now circuit) ∧
      entry = ⟨record, now, circuit.id, circuits.runtime.heap.length⟩ := by
  unfold VariableConfig.registerVariable at h
  split at h
  · cases h
  next circuit hcircuit =>
  split at h
  · cases h
  next runtime hruntime =>
  obtain ⟨rfl, rfl⟩ := Prod.mk.inj (some.inj h)
  obtain ⟨decryptor, -, rfl⟩ := map_eq_some_iff.mp hcircuit
  refine ⟨_, ?_, ?_, ?_, ⟨runtime, hruntime⟩, rfl, rfl⟩ <;> rfl

theorem processVariableBuildRecords_opened {crypto : BuildCrypto}
    {accept : Bool} {random : Bytes} {records relayed : List VariableRecord}
    {processed : ProcessedBuild}
    (h : processVariableBuildRecords crypto hop accept random records =
      some (processed, relayed)) :
    ∃ keys, hop.openRequest crypto (records.getD processed.slot (FixedBytes.zero _)) =
      some (processed.request, keys) := by
  unfold processVariableBuildRecords at h
  split at h
  · cases h
  split at h
  · cases h
  next found bytes hfound =>
  obtain ⟨record, hrecord, h⟩ := bind_eq_some_iff.mp h
  obtain ⟨opened, hopened, h⟩ := bind_eq_some_iff.mp h
  obtain ⟨reply, -, h⟩ := bind_eq_some_iff.mp h
  obtain ⟨rfl, -⟩ := Prod.mk.inj (some.inj h)
  refine ⟨opened.2, ?_⟩
  rw [getD_eq_getElem?_getD, hrecord]
  exact hopened

theorem handledVariable (id : UInt32) (payload : Bytes) (answers : VariableAnswers) :
    HandledVariable config state now
      (config.handleVariableTransit state id payload answers now) := by
  unfold VariableConfig.handleVariableTransit
  split
  · exact .kept rfl nofun
  split
  · exact .kept rfl nofun
  next records hrecords =>
  dsimp only
  split
  · exact .kept rfl nofun
  split
  · exact .kept rfl nofun
  next hop hhop =>
  split
  · exact .kept rfl nofun
  next processed relayed hprocessed =>
  obtain ⟨keys, hopened⟩ := processVariableBuildRecords_opened hprocessed
  unfold VariableConfig.answerVariable
  dsimp only
  split
  · split
    · exact .kept rfl nofun
    · exact .kept rfl nofun
  next installed entry hregistered =>
  rw [ite_none_right_eq_some] at hregistered
  obtain ⟨circuit, hid, howner, hexpires, hok, rfl, rfl⟩ := registerVariable_eq_some hregistered.2
  split
  · exact .removed circuit ⟨circuit.id, some state.circuits.runtime.heap.length⟩ rfl rfl nofun
  split
  · exact .removed circuit ⟨circuit.id, some state.circuits.runtime.heap.length⟩ rfl rfl nofun
  · exact .accepting hop (processed.request, keys) circuit hhop hopened hid howner
      hexpires hok rfl ⟨rfl, rfl, rfl⟩

end Handled

/-- How long the circuit of an accepted record stays, in milliseconds. -/
def variableCircuitLifetime : Nat := 660000

def AcceptedRecord.Live (circuits : CircuitRun) (entry : AcceptedRecord) : Prop :=
  ∃ circuit : InboundCircuit, circuit.id = entry.id ∧ circuit.owner = FixedBytes.zero 32 ∧
    (circuit.expiresAt = 0 ∨
      circuit.expiresAt.toNat = entry.started.toNat + variableCircuitLifetime) ∧
    circuits.Holds (.inbound circuit) entry.generation

variable {circuits : CircuitRun} {entry : AcceptedRecord}

theorem AcceptedRecord.Live.step (h : entry.Live circuits)
    (htoken : ∀ token ∈ action.token, token.generation ≠ some entry.generation)
    (hexpire : ∀ now shard, action = .expire now shard →
      now.toNat < entry.started.toNat + variableCircuitLifetime) :
    entry.Live (circuits.step action) := by
  obtain ⟨circuit, hid, howner, hexpires, hholds⟩ := h
  refine ⟨circuit, hid, howner, hexpires, hholds.step htoken howner ?_⟩
  intro now shard haction
  have hnow := hexpire _ _ haction
  change expired circuit.expiresAt now = false
  unfold expired
  rcases hexpires with hzero | hlate
  · simp [hzero]
  · rw [decide_eq_false_iff_not, UInt64.le_iff_toNat_le]
    omega

theorem AcceptedRecord.Live.registerInbound (h : entry.Live circuits) (now : UInt64)
    (circuit : InboundCircuit) : entry.Live (circuits.step (.registerInbound now circuit)) :=
  h.step (fun _ hnone => absurd hnone (by simp [CircuitAction.token])) fun _ _ heq => nomatch heq

theorem AcceptedRecord.Live.removeCircuit (h : entry.Live circuits)
    (htoken : token.generation ≠ some entry.generation) :
    entry.Live (circuits.step (.removeCircuit token)) := by
  refine h.step ?_ fun _ _ heq => nomatch heq
  intro other heq
  obtain rfl := some.inj heq
  exact htoken

theorem expiresAt_of_registered {now : UInt64} (h : expired (now + 660000) now = false) :
    now + 660000 = 0 ∨ (now + 660000).toNat = now.toNat + variableCircuitLifetime := by
  have hlifetime : (660000 : UInt64).toNat = 660000 := rfl
  unfold expired at h
  rw [decide_eq_false_iff_not, not_and] at h
  by_cases hzero : now + 660000 = 0
  · exact Or.inl hzero
  have hlater := h hzero
  rw [UInt64.le_iff_toNat_le, UInt64.toNat_add, hlifetime] at hlater
  rw [UInt64.toNat_add, hlifetime, variableCircuitLifetime]
  omega

namespace VariableTransitRun

def entries (run : VariableTransitRun) : List AcceptedRecord := run.sending ++ run.accepted

def Apart (left right : AcceptedRecord) : Prop :=
  left.record = right.record →
    left.started.toNat + variableCircuitLifetime ≤ right.started.toNat ∨
      right.started.toNat + variableCircuitLifetime ≤ left.started.toNat

structure Invariant (config : VariableConfig) (run : VariableTransitRun) : Prop where
  live : ∀ entry ∈ run.entries,
    run.clock.toNat < entry.started.toNat + variableCircuitLifetime →
      entry.Live run.state.circuits
  opened : ∀ entry ∈ run.entries, ∃ hop opened, config.hop = some hop ∧
    hop.openRequest config.crypto entry.record = some opened ∧
    opened.1.receiveTunnelID = entry.id
  installed : ∀ entry ∈ run.entries, entry.generation ∈ run.installed
  numbered : ∀ generation ∈ run.installed, generation < run.state.circuits.runtime.heap.length
  distinct : (run.entries.map AcceptedRecord.generation).Nodup
  apart : run.entries.Pairwise Apart

variable {config : VariableConfig} {run : VariableTransitRun}

theorem invariant_start (config : VariableConfig) : Invariant config start where
  live := nofun
  opened := nofun
  installed := nofun
  numbered := nofun
  distinct := nodup_nil
  apart := List.Pairwise.nil

theorem Invariant.atTime (h : Invariant config run) {now : UInt64} (hclock : run.clock ≤ now) :
    Invariant config { run with clock := now } := by
  refine ⟨?_, h.opened, h.installed, h.numbered, h.distinct, h.apart⟩
  intro entry hmem hlive
  exact h.live _ hmem (Nat.lt_of_le_of_lt hclock hlive)

theorem Invariant.withState (h : Invariant config run) {state : VariableTransitState}
    (hlength : run.state.circuits.runtime.heap.length ≤ state.circuits.runtime.heap.length)
    (hlive : ∀ entry ∈ run.entries,
      run.clock.toNat < entry.started.toNat + variableCircuitLifetime →
        entry.Live run.state.circuits → entry.Live state.circuits) :
    Invariant config { run with state } where
  live := fun entry hmem hclock => hlive _ hmem hclock (h.live entry hmem hclock)
  opened := h.opened
  installed := h.installed
  numbered := fun generation hmem => Nat.lt_of_lt_of_le (h.numbered generation hmem) hlength
  distinct := h.distinct
  apart := h.apart

theorem Invariant.foreign (h : Invariant config run)
    (hforeign : action.Foreign run.installed run.clock) :
    Invariant config { run with
      state := { run.state with circuits := run.state.circuits.step action } } := by
  refine h.withState (CircuitRun.length_heap_step _ _) ?_
  intro entry hmem hclock hlive
  refine hlive.step ?_ ?_
  · intro token htoken heq
    exact hforeign.1 token htoken entry.generation heq (h.installed _ hmem)
  · rintro now shard rfl
    have hnow := UInt64.le_iff_toNat_le.mp (of_decide_eq_true hforeign.2)
    omega

variable {entry : AcceptedRecord}

variable (h : Invariant config run)
include h

theorem Invariant.generation_ne (hmem : entry ∈ run.entries) :
    some run.state.circuits.runtime.heap.length ≠ some entry.generation := by
  have := h.numbered _ (h.installed _ hmem)
  intro heq
  have := some.inj heq
  omega

variable {next : VariableTransitState}

theorem Invariant.begin_failed
    {circuit : InboundCircuit}
    (htoken : token.generation = some run.state.circuits.runtime.heap.length)
    (hcircuits : next.circuits =
      (run.state.circuits.step (.registerInbound run.clock circuit)).step (.removeCircuit token)) :
    Invariant config { run with state := next } := by
  refine h.withState ?_ ?_
  · rw [hcircuits]
    exact (CircuitRun.length_heap_step _ _).trans (CircuitRun.length_heap_step _ _)
  · intro entry hmem hclock hlive
    rw [hcircuits]
    apply (hlive.registerInbound run.clock _).removeCircuit
    rw [htoken]
    exact h.generation_ne hmem

/-- An accepted record joins the others. One that was accepted before, and whose circuit is
still there, would have been refused its tunnel ID. -/
theorem Invariant.begin_accepting {opened : VariableBuildRequest × VariableBuildKeys}
    {circuit : InboundCircuit} (hhop : config.hop = some hop)
    (hopened : hop.openRequest config.crypto entry.record = some opened)
    (hid : circuit.id = opened.1.receiveTunnelID) (howner : circuit.owner = FixedBytes.zero 32)
    (hexpires : circuit.expiresAt = run.clock + 660000)
    (hregistered : ∃ runtime,
      run.state.circuits.runtime.registerInbound run.clock circuit = .ok runtime)
    (hcircuits : next.circuits = run.state.circuits.step (.registerInbound run.clock circuit))
    (hentry : entry.started = run.clock ∧ entry.id = circuit.id ∧
      entry.generation = run.state.circuits.runtime.heap.length) :
    Invariant config { run with
      state := next, sending := entry :: run.sending
      installed := entry.generation :: run.installed } := by
  obtain ⟨hstarted, hsame, hgeneration⟩ := hentry
  obtain ⟨runtime, hruntime⟩ := hregistered
  obtain ⟨hfree, hexpired, hholds⟩ := CircuitRun.registerInbound_ok hruntime
  have hold : Invariant config { run with state := next } := by
    refine h.withState ?_ ?_
    · rw [hcircuits]
      exact CircuitRun.length_heap_step _ _
    · intro other hmem hclock hlive
      rw [hcircuits]
      exact hlive.registerInbound run.clock _
  constructor
  · intro other hmem hclock
    rcases mem_cons.mp hmem with rfl | hother
    · refine ⟨circuit, hsame.symm, howner, ?_, ?_⟩
      · rw [hexpires, hstarted]
        rw [hexpires] at hexpired
        exact expiresAt_of_registered hexpired
      · rw [hcircuits, hgeneration]
        exact hholds
    · exact hold.live _ hother hclock
  · intro other hmem
    rcases mem_cons.mp hmem with rfl | hother
    · exact ⟨hop, opened, hhop, hopened, by rw [hsame, hid]⟩
    · exact h.opened _ hother
  · intro other hmem
    rcases mem_cons.mp hmem with rfl | hother
    · exact mem_cons_self
    · exact mem_cons_of_mem _ (h.installed _ hother)
  · intro generation hmem
    rcases mem_cons.mp hmem with rfl | hother
    · obtain ⟨installed, hinstalled, -⟩ := map_eq_some_iff.mp hholds.circuit
      rw [hcircuits, hgeneration]
      exact (List.getElem?_eq_some_iff.mp hinstalled).1
    · exact hold.numbered _ hother
  · refine nodup_cons.mpr ⟨?_, h.distinct⟩
    intro hmem
    obtain ⟨other, hother, heq⟩ := mem_map.mp hmem
    exact h.generation_ne hother (by rw [heq, hgeneration])
  · refine pairwise_cons.mpr ⟨?_, h.apart⟩
    intro other hother hrecord
    rw [hstarted]
    by_contra hsoon
    obtain ⟨earlier, hearlier, -, -, hpresent⟩ := h.live _ hother (by omega)
    obtain ⟨otherHop, otherOpened, hotherHop, hotherOpened, hotherID⟩ := h.opened _ hother
    rw [hhop, some_inj] at hotherHop
    subst hotherHop
    rw [← hrecord, hopened, some_inj] at hotherOpened
    have hsameID : earlier.id = circuit.id := by rw [hearlier, ← hotherID, ← hotherOpened, hid]
    have hpresentEntry := hpresent.entry
    change (run.state.circuits.runtime.tables .inbound).lookup earlier.id = _ at hpresentEntry
    rw [hsameID, hfree] at hpresentEntry
    cases hpresentEntry

theorem Invariant.begin {outcome : VariableTransitState × TransitOutcome}
    (hhandled : HandledVariable config run.state run.clock outcome) :
    Invariant config (run.begin outcome) := by
  have hplain {state : VariableTransitState} {prepared : TransitOutcome}
      (hprepared : ∀ records entry, prepared ≠ .accepting records entry) :
      run.begin (state, prepared) = { run with state } := by
    cases prepared with
    | accepting records entry => exact absurd rfl (hprepared _ _)
    | failed | rejecting => rfl
  cases hhandled with
  | kept hcircuits houtcome =>
    rw [hplain houtcome]
    refine h.withState (by rw [hcircuits]) ?_
    intro entry _ _ hlive
    rw [hcircuits]
    exact hlive
  | removed circuit token htoken hcircuits houtcome =>
    rw [hplain houtcome]
    exact h.begin_failed htoken hcircuits
  | accepting hop opened circuit hhop hopened hid howner hexpires hregistered hcircuits hentry =>
    exact h.begin_accepting hhop hopened hid howner hexpires hregistered hcircuits hentry

omit h

theorem Apart.symm {left right : AcceptedRecord} (h : Apart left right) : Apart right left :=
  fun hrecord => (h hrecord.symm).symm

theorem Invariant.of_subperm (h : Invariant config run) {sending accepted : List AcceptedRecord}
    (hsubperm : (sending ++ accepted).Subperm run.entries) :
    Invariant config { run with sending, accepted } := by
  have hsubset := hsubperm.subset
  obtain ⟨kept, hperm, hsublist⟩ := hsubperm
  refine ⟨fun entry hmem => h.live _ (hsubset hmem),
    fun entry hmem => h.opened _ (hsubset hmem),
    fun entry hmem => h.installed _ (hsubset hmem), h.numbered, ?_, ?_⟩
  · exact (hperm.map _).nodup_iff.mp (h.distinct.sublist (hsublist.map _))
  · exact hperm.pairwise (h.apart.sublist hsublist) fun hapart => hapart.symm

theorem perm_cons_filter {entries : List AcceptedRecord}
    (hdistinct : (entries.map AcceptedRecord.generation).Nodup) (hmem : entry ∈ entries) :
    (entry :: entries.filter (·.generation ≠ entry.generation)).Perm entries := by
  induction entries with
  | nil => cases hmem
  | cons head rest ih =>
    obtain ⟨hhead, hrest⟩ := nodup_cons.mp hdistinct
    rcases mem_cons.mp hmem with rfl | hin
    · have hall : rest.filter (·.generation ≠ entry.generation) = rest := by
        apply filter_eq_self.mpr
        intro other hother
        apply decide_eq_true
        rintro heq
        exact hhead (mem_map.mpr ⟨other, hother, heq⟩)
      rw [filter_cons_of_neg (by simp), hall]
    · have hne : head.generation ≠ entry.generation := by
        intro heq
        exact hhead (mem_map.mpr ⟨entry, hin, heq.symm⟩)
      rw [filter_cons_of_pos (by simpa using hne)]
      exact (List.Perm.swap _ _ _).trans ((ih hrest hin).cons head)

/-- The send of an accepted message returns. If it failed, the removal of its circuit is no
concern of the others, whose numbers are different. -/
theorem Invariant.finish (h : Invariant config run) (hentry : entry ∈ run.sending)
    (delivered : Bool) : Invariant config (run.finish entry delivered) := by
  have hdistinct := h.distinct
  rw [entries, map_append, nodup_append] at hdistinct
  cases delivered with
  | true =>
    refine h.of_subperm (List.Perm.subperm ?_)
    exact perm_middle.trans ((perm_cons_filter hdistinct.1 hentry).append_right run.accepted)
  | false =>
    have hrest : Invariant config { run with
        sending := run.sending.filter (·.generation ≠ entry.generation) } :=
      h.of_subperm (filter_sublist.append_right _).subperm
    refine hrest.withState (CircuitRun.length_heap_step _ _) ?_
    intro other hmem _ hlive
    change other.Live (run.state.circuits.step (.removeCircuit entry.token))
    apply AcceptedRecord.Live.removeCircuit hlive
    intro heq
    have hsame := some.inj heq
    rcases mem_append.mp hmem with hother | hother
    · exact of_decide_eq_true (mem_filter.mp hother).2 hsame.symm
    · exact hdistinct.2.2 _ (mem_map_of_mem hentry) _ (mem_map_of_mem hother) hsame

theorem Invariant.step (h : Invariant config run) {input : VariableTransitStep}
    (hclock : run.clock ≤ input.now) : Invariant config (run.step config input) := by
  obtain ⟨now, event⟩ := input
  have htime := h.atTime hclock
  cases event with
  | build id payload answers => exact htime.begin (handledVariable id _ _)
  | sent generation delivered =>
    unfold VariableTransitRun.step
    dsimp only
    split
    · exact htime
    next entry hfound => exact htime.finish (mem_of_find?_eq_some hfound) _
  | reservations manager => exact htime.withState (Nat.le_refl _) fun _ _ _ hlive => hlive
  | circuits action =>
    unfold VariableTransitRun.step
    dsimp only
    split
    next hforeign => exact htime.foreign hforeign
    · exact htime

/-- A hop with the ElGamal identity of the first hop of a path, whose digest keeps the bytes
after its own record. -/
def legacyHop : VariableConfig where
  manager := { TransitRun.plainHop with
    localHash := (Tunnel.variableHop 0).router
    sha256 := fun payload => FixedBytes.copy 32 (payload.drop 529) }
  crypto := plainCrypto
  legacyEnabled := true
  legacyPrivate := FixedBytes.zero 256
  staticPrivate := FixedBytes.zero 32

def legacyPayload (filler : UInt8) : Bytes :=
  2 :: ((((fillVariableRequest plainCrypto (FixedBytes.zero 32) (variableHop 0)).map
    fun filled => filled.1.val).getD []) ++ List.replicate variableBuildRecordSize filler)

/-- The same record twice, under two message IDs and next to different records. -/
def alteredReplay : List VariableTransitStep :=
  let answers : VariableAnswers := ⟨true, List.replicate 495 0, List.replicate 495 0, 0⟩
  [⟨3600000, .build 1 (legacyPayload 0) answers⟩, ⟨3600000, .sent 0 true⟩,
    ⟨3601000, .build 2 (legacyPayload 9) answers⟩, ⟨3601000, .sent 1 true⟩]

-- Both messages pass the reservation; the second is sent on with a rejection.
example : (Lib.run (step legacyHop) start alteredReplay).state.manager.transitRecords.entries.length =
      2 ∧
    (Lib.run (step legacyHop) start alteredReplay).accepted.length = 1 := by
  decide +kernel

end VariableTransitRun

end Ivnp.Tunnel
