import Ivnp.Lib.Run
import Ivnp.Streaming.TunnelConn

/-!
`Write` on a stream, with everything that can happen while it runs. The rest of
the program changes the connection whenever `Write` does not hold its lock; what
it does then, and how every send ends, are inputs of the model. The bytes that
`Write` reports are those whose packets it has left among the pending ones, but
a failed send in the middle of the buffer ends it early and without an error.
-/

namespace Ivnp.Streaming

open Ivnp.Lib List

inductive WriteError where
  | closed
  | tunnelPacket
  | tunnelBackpressure
  | deadlineExceeded
  | other (text : String)
  deriving DecidableEq

/-- The connection with what `Write` reads besides. -/
structure WriteConn extends TunnelConn where
  peerClosedOK : Bool
  localWriteClosed : Bool
  applicationClosed : Bool
  limitExpired : Bool
  window : UInt16

/-- What ends a wait in `waitForWindow`. -/
inductive Wakeup where
  | wake
  | done
  | applicationDone
  | limit

/-- What happens during one turn of the loop of `Write`. -/
structure Turn where
  /-- the waits for the window, with the change of the connection meanwhile -/
  waits : List (Wakeup × (WriteConn → WriteConn))
  /-- the change until `Write` takes the lock -/
  entering : WriteConn → WriteConn
  /-- whether there is a buffer for the packet -/
  leased : Bool
  /-- the change during the send -/
  sending : WriteConn → WriteConn
  /-- the result of `sendWireOwned` -/
  send : Except WriteError Unit

namespace WriteConn

/-- What `waitForWindow` finds before it waits; nothing if it has to. -/
def checkWindow (conn : WriteConn) : Option (Except WriteError Unit) :=
  if conn.limitExpired then some (.error .deadlineExceeded)
  else if conn.done ∨ conn.localWriteClosed ∨ conn.applicationClosed then some (.error .closed)
  else if conn.remoteID = 0 then some (.error .tunnelPacket)
  else if conn.pending.entries.length < conn.window.toNat then some (.ok ())
  else none

/-- `waitForWindow`; no result while it still waits after the given waits. -/
def waitForWindow (conn : WriteConn) :
    List (Wakeup × (WriteConn → WriteConn)) → WriteConn × Option (Except WriteError Unit)
  | [] => (conn, conn.checkWindow)
  | (wakeup, change) :: rest =>
    match conn.checkWindow with
    | some result => (conn, some result)
    | none =>
      match wakeup with
      | .wake => waitForWindow (change conn) rest
      | .done => (change conn, some (.error .closed))
      | .applicationDone => (change conn, some (.error .closed))
      | .limit => (change conn, some (.error .deadlineExceeded))

def marshalPacketLeased (leased : Bool) (packet : Packet) : Except WriteError Bytes :=
  match packet.marshal with
  | none => .error .tunnelPacket
  | some wire => if leased then .ok wire else .error .tunnelBackpressure

/-- A packet that `Write` has put among the pending ones. -/
structure Stored where
  conn : WriteConn
  packet : Packet

/-- The part of a turn under the lock: the next chunk gets its sequence number
and its packet is retained. -/
def store (conn : WriteConn) (leased : Bool) (src : Bytes) :
    WriteConn × Except WriteError Stored :=
  if conn.remoteID = 0 ∨ conn.done ∨ conn.peerClosedOK ∨ conn.localWriteClosed then
    (conn, .error .closed)
  else
    let packet := conn.dataPacket (src.take conn.peerMaxPayloadSize.val)
    let taken := { conn with nextSequence := conn.nextSequence + 1 }
    match marshalPacketLeased leased packet with
    | .error error => (taken, .error error)
    | .ok wire =>
      let retained :=
        { taken with
          pending := taken.pending.insert packet.sequence
            { wire, retries := 0, nacks := 0, retransmitted := false } }
      (retained, .ok ⟨retained, packet⟩)

def prepare (conn : WriteConn) (turn : Turn) (src : Bytes) :
    WriteConn × Option (Except WriteError Stored) :=
  match conn.waitForWindow turn.waits with
  | (conn, none) => (conn, none)
  | (conn, some (.error error)) => (conn, some (.error error))
  | (conn, some (.ok ())) =>
    let result := (turn.entering conn).store turn.leased src
    (result.1, some result.2)

end WriteConn

inductive WriteStatus where
  | running
  | waiting
  | returned (error : Option WriteError)
  deriving DecidableEq

/-- A call of `Write` under way: the bytes still to be sent, the number of bytes
`written`, and the packets that it has put among the pending ones and not taken
out again. -/
structure WriteRun where
  conn : WriteConn
  src : Bytes
  written : Nat
  retained : List Packet
  status : WriteStatus

namespace WriteRun

def start (conn : WriteConn) (src : Bytes) : WriteRun :=
  { conn, src, written := 0, retained := []
    status :=
      if src = [] then
        .returned (if conn.done ∨ conn.applicationClosed then some .closed else none)
      else .running }

def finish (state : WriteRun) (turn : Turn) (stored : WriteConn.Stored) : WriteRun :=
  let conn := turn.sending stored.conn
  let chunkLen := stored.packet.payload.length
  let kept :=
    { state with
      conn, written := state.written + chunkLen, retained := state.retained ++ [stored.packet] }
  match turn.send with
  | .ok () =>
    let rest := state.src.drop chunkLen
    { kept with src := rest, status := if rest = [] then .returned none else .running }
  | .error error =>
    if error = .deadlineExceeded ∨ conn.applicationClosed then
      { kept with status := .returned (some error) }
    else if conn.done then
      { state with
        conn := { conn with pending := conn.pending.erase stored.packet.sequence }
        status := .returned (some error) }
    else { kept with status := .returned none }

def step (state : WriteRun) (turn : Turn) : WriteRun :=
  match state.status with
  | .running =>
    match state.conn.prepare turn state.src with
    | (conn, none) => { state with conn, status := .waiting }
    | (conn, some (.error error)) => { state with conn, status := .returned (some error) }
    | (_, some (.ok stored)) => state.finish turn stored
  | _ => state

/-- The turn fails to send a packet on a connection that stays open, and the
packet was not the last one. -/
def Interrupted (state : WriteRun) (turn : Turn) : Prop :=
  ∃ (conn : WriteConn) (stored : WriteConn.Stored) (error : WriteError),
    state.conn.prepare turn state.src = (conn, some (.ok stored)) ∧
      turn.send = .error error ∧ error ≠ .deadlineExceeded ∧
      (turn.sending stored.conn).applicationClosed = false ∧
      (turn.sending stored.conn).done = false ∧
      stored.packet.payload.length < state.src.length

/-- While `Write` runs, no send fails like this. -/
def Uninterrupted (state : WriteRun) (turn : Turn) : Prop :=
  match state.status with
  | .running => ¬ state.Interrupted turn
  | _ => True

end WriteRun

namespace WriteConn

def write (conn : WriteConn) (src : Bytes) (turns : List Turn) : WriteRun :=
  run WriteRun.step (WriteRun.start conn src) turns

end WriteConn

section Contract

variable {next : WriteConn}

/-- The payload of a stored packet is a nonempty chunk at the front. -/
theorem WriteConn.payload_of_prepare {conn : WriteConn} {turn : Turn} {src : Bytes}
    {stored : WriteConn.Stored} (h : conn.prepare turn src = (next, some (.ok stored))) :
    ∃ size, 0 < size ∧ stored.packet.payload = src.take size := by
  unfold prepare at h
  split at h
  · cases h
  · cases h
  next ready hwait =>
    have hstore := Option.some.inj (Prod.mk.inj h).2
    unfold store at hstore
    split at hstore
    · cases hstore
    dsimp only at hstore
    split at hstore
    · cases hstore
    obtain rfl := Except.ok.inj hstore
    refine ⟨_, ?_, rfl⟩
    have hsize := (turn.entering ready).peerMaxPayloadSize.property.1
    exact Nat.lt_of_lt_of_le (by decide) hsize

variable (conn : WriteConn)

namespace WriteRun

/-- The bytes written are those in the retained packets, and while `Write` runs
it has the others before it. -/
structure Accounts (src : Bytes) (state : WriteRun) : Prop where
  retained : state.retained.flatMap Packet.payload = src.take state.written
  written_le : state.written ≤ src.length
  rest : state.status = .running → state.src = src.drop state.written ∧ state.src ≠ []

/-- The contract of a writer: no early return without an error. -/
def Complete (src : Bytes) (state : WriteRun) : Prop :=
  ∀ error, state.status = .returned error → error ≠ none ∨ state.written = src.length

variable {src : Bytes} {state : WriteRun}

theorem accounts_start (src : Bytes) : (start conn src).Accounts src := by
  refine ⟨rfl, Nat.zero_le _, fun hrunning => ?_⟩
  unfold start at hrunning ⊢
  split at hrunning
  · cases hrunning
  next hsrc => exact ⟨rfl, hsrc⟩

theorem complete_start (src : Bytes)
    (hreturned : (start conn src).status ≠ .running) : (start conn src).Complete src := by
  unfold start at hreturned
  split at hreturned
  next hsrc =>
    intro error _
    exact Or.inr (by rw [hsrc]; rfl)
  · exact absurd rfl hreturned

theorem Accounts.keep (haccounts : state.Accounts src) (hrunning : state.status = .running)
    {size : Nat} {packet : Packet} (hpacket : packet.payload = state.src.take size) :
    (state.retained ++ [packet]).flatMap Packet.payload =
        src.take (state.written + packet.payload.length) ∧
      state.written + packet.payload.length ≤ src.length ∧
      state.src.drop packet.payload.length = src.drop (state.written + packet.payload.length) := by
  obtain ⟨hsrc, -⟩ := haccounts.rest hrunning
  have hfront : packet.payload = (src.drop state.written).take packet.payload.length := by
    rw [← hsrc, hpacket, length_take, take_eq_take_iff]
    omega
  have hlength : packet.payload.length ≤ src.length - state.written := by
    have := congrArg length hfront
    rw [length_take, length_drop] at this
    omega
  have hwritten := haccounts.written_le
  refine ⟨?_, by omega, ?_⟩
  · rw [flatMap_append, haccounts.retained, take_add, flatMap_singleton, ← hfront]
  · rw [hsrc, drop_drop]

theorem interrupted_iff {turn : Turn} {stored : WriteConn.Stored}
    (hprepare : state.conn.prepare turn state.src = (next, some (.ok stored))) :
    state.Interrupted turn ↔ ∃ error, turn.send = .error error ∧ error ≠ .deadlineExceeded ∧
      (turn.sending stored.conn).applicationClosed = false ∧
      (turn.sending stored.conn).done = false ∧
      stored.packet.payload.length < state.src.length := by
  constructor
  · rintro ⟨conn, other, error, hother, hsend, hcause⟩
    obtain rfl := Except.ok.inj (Option.some.inj (Prod.mk.inj (hprepare.symm.trans hother)).2)
    exact ⟨error, hsend, hcause⟩
  · rintro ⟨error, hsend, hcause⟩
    exact ⟨next, stored, error, hprepare, hsend, hcause⟩

/-- What a step from a running state keeps, and when the contract breaks. -/
structure Turned (src : Bytes) (state next : WriteRun) (turn : Turn) : Prop where
  accounts : next.Accounts src
  progress : next.status = .running → state.written < next.written
  complete : next.Complete src ↔ ¬ state.Interrupted turn

theorem turned_finish (haccounts : state.Accounts src) (hrunning : state.status = .running)
    {turn : Turn} {stored : WriteConn.Stored}
    (hprepare : state.conn.prepare turn state.src = (next, some (.ok stored))) :
    Turned src state (state.finish turn stored) turn := by
  obtain ⟨size, hsize, hpayload⟩ := WriteConn.payload_of_prepare hprepare
  obtain ⟨hretained, hwritten, hrest⟩ := haccounts.keep hrunning hpayload
  obtain ⟨hsrc, hne⟩ := haccounts.rest hrunning
  have hpos : 0 < stored.packet.payload.length := by
    rw [hpayload, length_take]
    have := length_pos_iff.mpr hne
    omega
  have htotal : state.src.length = src.length - state.written := by rw [hsrc, length_drop]
  have hinterrupted := interrupted_iff hprepare
  unfold finish
  cases hsend : turn.send with
  | ok =>
    rw [hsend] at hinterrupted
    refine ⟨⟨hretained, hwritten, ?_⟩, fun _ => Nat.lt_add_of_pos_right hpos, ?_⟩
    · intro hgoes
      dsimp only at hgoes ⊢
      split at hgoes
      · cases hgoes
      next hmore => exact ⟨hrest, hmore⟩
    · refine iff_of_true ?_ (hinterrupted.not.mpr (by rintro ⟨_, h, -⟩; cases h))
      intro error hreturned
      dsimp only at hreturned
      split at hreturned
      next hall =>
        have := drop_eq_nil_iff.mp hall
        exact Or.inr (by dsimp only; omega)
      · cases hreturned
  | error error =>
    rw [hsend] at hinterrupted
    dsimp only
    split
    next hkept =>
      refine ⟨⟨hretained, hwritten, nofun⟩, nofun, iff_of_true ?_ (hinterrupted.not.mpr ?_)⟩
      · rintro _ ⟨⟩
        exact Or.inl nofun
      · rintro ⟨_, ⟨⟩, hdeadline, happlication, -⟩
        rcases hkept with hkept | hkept
        · exact hdeadline hkept
        · exact Bool.noConfusion (happlication.symm.trans hkept)
    next hopen =>
      split
      next hdone =>
        refine ⟨⟨haccounts.retained, haccounts.written_le, nofun⟩, nofun,
          iff_of_true ?_ (hinterrupted.not.mpr ?_)⟩
        · rintro _ ⟨⟩
          exact Or.inl nofun
        · rintro ⟨_, ⟨⟩, -, -, halive, -⟩
          exact Bool.noConfusion (halive.symm.trans hdone)
      next halive =>
        obtain ⟨hdeadline, happlication⟩ := not_or.mp hopen
        refine ⟨⟨hretained, hwritten, nofun⟩, nofun, ?_⟩
        rw [hinterrupted]
        constructor
        · rintro hcomplete ⟨-, -, -, -, -, hshort⟩
          rcases hcomplete none rfl with hnone | hall
          · exact hnone rfl
          · dsimp only at hall
            omega
        · intro hlast
          rintro _ ⟨⟩
          by_contra hless
          refine hlast ⟨error, rfl, hdeadline, Bool.not_eq_true _ ▸ happlication,
            Bool.not_eq_true _ ▸ halive, ?_⟩
          dsimp only at hless
          omega

theorem turned_step (haccounts : state.Accounts src) (hrunning : state.status = .running)
    (turn : Turn) : Turned src state (state.step turn) turn := by
  unfold step
  rw [hrunning]
  dsimp only
  -- without a stored packet nothing is interrupted
  have hnone {next : WriteConn} {result : Option (Except WriteError WriteConn.Stored)}
      (hprepare : state.conn.prepare turn state.src = (next, result))
      (hresult : ∀ stored, result ≠ some (.ok stored)) : ¬ state.Interrupted turn := by
    rintro ⟨conn, stored, error, hother, -⟩
    exact hresult _ (Prod.mk.inj (hprepare.symm.trans hother)).2
  split
  next hprepare =>
    refine ⟨⟨haccounts.retained, haccounts.written_le, ?_⟩, ?_, iff_of_true ?_ (hnone hprepare ?_)⟩
    · rintro ⟨⟩
    · rintro ⟨⟩
    · rintro _ ⟨⟩
    · rintro _ ⟨⟩
  next hprepare =>
    refine ⟨⟨haccounts.retained, haccounts.written_le, ?_⟩, ?_, iff_of_true ?_ (hnone hprepare ?_)⟩
    · rintro ⟨⟩
    · rintro ⟨⟩
    · rintro _ ⟨⟩
      exact Or.inl nofun
    · rintro _ ⟨⟩
  next hprepare => exact turned_finish haccounts hrunning hprepare

theorem step_of_not_running (hstopped : state.status ≠ .running) (turn : Turn) :
    state.step turn = state := by
  unfold step
  split
  next hrunning => exact absurd hrunning hstopped
  · rfl

theorem run_of_not_running (hstopped : state.status ≠ .running) (turns : List Turn) :
    run step state turns = state := by
  induction turns with
  | nil => rfl
  | cons turn rest ih => rw [run_cons, step_of_not_running hstopped, ih]

theorem accounts_run (haccounts : state.Accounts src) (turns : List Turn) :
    (run step state turns).Accounts src := by
  refine run_preserves (I := Accounts src) (fun state turn haccounts => ?_) haccounts _
  by_cases hrunning : state.status = .running
  · exact (turned_step haccounts hrunning _).accounts
  · rw [step_of_not_running hrunning]
    exact haccounts

theorem written_run (haccounts : state.Accounts src) (turns : List Turn)
    (hrunning : (run step state turns).status = .running) :
    state.written + turns.length ≤ (run step state turns).written := by
  induction turns generalizing state with
  | nil => rfl
  | cons turn rest ih =>
    by_cases hstart : state.status = .running
    · have hturned := turned_step haccounts hstart turn
      have hrest := ih hturned.accounts hrunning
      have hnext : (state.step turn).status = .running := by
        by_contra hstopped
        rw [run_cons, run_of_not_running hstopped] at hrunning
        exact hstopped hrunning
      have := hturned.progress hnext
      rw [run_cons, length_cons]
      omega
    · rw [run_of_not_running hstart] at hrunning
      exact absurd hrunning hstart

theorem along_of_not_running (hstopped : state.status ≠ .running) (turns : List Turn) :
    Along step Uninterrupted state turns := by
  induction turns with
  | nil => trivial
  | cons turn rest ih =>
    refine ⟨?_, ?_⟩
    · unfold Uninterrupted
      split
      next hrunning => exact absurd hrunning hstopped
      · trivial
    · rw [step_of_not_running hstopped]
      exact ih

theorem along_of_sent {turns : List Turn} (hsent : ∀ turn ∈ turns, turn.send = .ok ())
    (state : WriteRun) : Along step Uninterrupted state turns := by
  induction turns generalizing state with
  | nil => trivial
  | cons turn rest ih =>
    obtain ⟨hfirst, hrest⟩ := forall_mem_cons.mp hsent
    refine ⟨?_, ih hrest _⟩
    unfold Uninterrupted
    split
    · rintro ⟨_, _, _, -, hfailed, -⟩
      cases hfirst.symm.trans hfailed
    · trivial

theorem complete_run_iff (haccounts : state.Accounts src)
    (hstart : state.status ≠ .running → state.Complete src) (turns : List Turn) :
    (run step state turns).Complete src ↔ Along step Uninterrupted state turns := by
  induction turns generalizing state with
  | nil =>
    refine iff_of_true ?_ trivial
    by_cases hrunning : state.status = .running
    · intro error hreturned
      cases hrunning.symm.trans hreturned
    · exact hstart hrunning
  | cons turn rest ih =>
    by_cases hrunning : state.status = .running
    · have hturned := turned_step haccounts hrunning turn
      have hhere : state.Uninterrupted turn ↔ ¬ state.Interrupted turn := by
        unfold Uninterrupted
        rw [hrunning]
      rw [run_cons, along_cons, hhere, ← hturned.complete]
      by_cases hcomplete : (state.step turn).Complete src
      · rw [ih hturned.accounts fun _ => hcomplete]
        exact (and_iff_right hcomplete).symm
      -- a broken contract is one of a finished call, which nothing changes
      have hstopped : (state.step turn).status ≠ .running := by
        intro hgoes
        refine hcomplete fun error hreturned => ?_
        cases hgoes.symm.trans hreturned
      rw [run_of_not_running hstopped]
      exact iff_of_false hcomplete fun h => hcomplete h.1
    · rw [run_of_not_running hrunning]
      exact iff_of_true (hstart hrunning) (along_of_not_running hrunning _)

end WriteRun

open WriteRun in
/-- For every buffer, connection and course of events: the count that `Write`
reports is that of the leading bytes in retained packets; with as many turns as
bytes it has returned or waits for the window; and it keeps the contract of a
writer exactly if no send but that of the last chunk fails on a connection that
stays open. -/
theorem write_complete_iff (src : Bytes) (turns : List Turn) :
    (conn.write src turns).retained.flatMap Packet.payload =
        src.take (conn.write src turns).written ∧
      (conn.write src turns).written ≤ src.length ∧
      (src.length ≤ turns.length → (conn.write src turns).status ≠ .running) ∧
      ((∀ error, (conn.write src turns).status = .returned error →
          error ≠ none ∨ (conn.write src turns).written = src.length) ↔
        Along step Uninterrupted (start conn src) turns) := by
  have hstart := accounts_start conn src
  have haccounts := accounts_run hstart turns
  refine ⟨haccounts.retained, haccounts.written_le, fun hturns hrunning => ?_,
    complete_run_iff hstart (complete_start conn src) turns⟩
  have hwritten := written_run hstart turns hrunning
  obtain ⟨hrest, hne⟩ := haccounts.rest hrunning
  rw [hrest, Ne, drop_eq_nil_iff] at hne
  have : (start conn src).written = 0 := rfl
  omega

end Contract

/-- An open connection with room in its window, for chunks of 512 bytes. -/
def openConn : WriteConn where
  toTunnelConn := (TunnelConn.start 1 2 8 3).updatePeerMaxPayloadSize 512
  peerClosedOK := false
  localWriteClosed := false
  applicationClosed := false
  limitExpired := false
  window := 8

/-- A turn in which nothing else happens. -/
def quietTurn (send : Except WriteError Unit) : Turn where
  waits := []
  entering := id
  leased := true
  sending := id
  send := send

theorem write_complete_two_chunks :
    (openConn.write (List.replicate 513 7) [quietTurn (.ok ()), quietTurn (.ok ())]).status =
        .returned none ∧
      (openConn.write (List.replicate 513 7) [quietTurn (.ok ()), quietTurn (.ok ())]).written =
        513 := by
  have hreturned : (openConn.write (replicate 513 7)
      [quietTurn (.ok ()), quietTurn (.ok ())]).status = .returned none := by
    decide +kernel
  have hsent : ∀ turn ∈ [quietTurn (.ok ()), quietTurn (.ok ())], turn.send = .ok () :=
    forall_mem_cons.mpr ⟨rfl, forall_mem_singleton.mpr rfl⟩
  have hcontract := (write_complete_iff openConn (replicate 513 7) _).2.2.2.mpr
    (WriteRun.along_of_sent hsent _)
  refine ⟨hreturned, ?_⟩
  rw [(hcontract _ hreturned).resolve_left (absurd rfl), length_replicate]

/-- A send that fails for lack of room in the first of two chunks: `Write`
returns 512 of 513 bytes and no error. -/
theorem write_short_without_error :
    (openConn.write (List.replicate 513 7) [quietTurn (.error .tunnelBackpressure)]).status =
        .returned none ∧
      (openConn.write (List.replicate 513 7) [quietTurn (.error .tunnelBackpressure)]).written =
        512 := by
  decide +kernel

end Ivnp.Streaming
