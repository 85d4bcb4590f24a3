import Ivnp.Foundation.Identity
import Ivnp.Lib.Run
import Ivnp.Lib.Table

/-!
The two session tables of an SSU2 manager. `sessionsByID` has every session that
packets may arrive on, and `sessionsByPeer` the one session per peer that is used
for sending. A session is known by its pointer, the `handle`.
-/

namespace Ivnp.Ssu2

open Ivnp.Lib Ivnp.Foundation Option AList Table

/-- The part of `ssu2TransportSession` that the tables read. -/
structure TransportSession where
  handle : Nat
  peer : Hash
  receiveID : UInt64
  inbound : Bool
  deriving DecidableEq

structure SessionManager where
  localInfo : Option Hash
  maxSessions : Nat
  sessionsByPeer : Table Hash TransportSession
  sessionsByID : Table UInt64 TransportSession

def preferInboundSession (info : Option Hash) (peer : Hash) : Bool :=
  match info with
  | none => false
  | some localHash => compareBytes localHash.val peer.val = .gt

namespace SessionManager

def new (localInfo : Option Hash) (maxSessions : Nat) : SessionManager :=
  ⟨localInfo, maxSessions, ∅, ∅⟩

structure Installed where
  displaced : Option TransportSession
  ok : Bool
  deriving DecidableEq

def installSession (manager : SessionManager) (running : Bool) (session : TransportSession) :
    SessionManager × Installed :=
  if !running ∨ (manager.sessionsByID.lookup session.receiveID).isSome then (manager, ⟨none, false⟩)
  else
    match manager.sessionsByPeer.lookup session.peer with
    | none =>
      if manager.sessionsByID.entries.length ≥ manager.maxSessions then (manager, ⟨none, false⟩)
      else
        ({ manager with
            sessionsByID := manager.sessionsByID.insert session.receiveID session
            sessionsByPeer := manager.sessionsByPeer.insert session.peer session },
          ⟨none, true⟩)
    | some previous =>
      let sessionsByID := manager.sessionsByID.insert session.receiveID session
      if previous.inbound = preferInboundSession manager.localInfo session.peer ∧
          previous.inbound ≠ session.inbound then
        ({ manager with sessionsByID }, ⟨none, true⟩)
      else
        ({ manager with
            sessionsByID := sessionsByID.erase previous.receiveID
            sessionsByPeer := manager.sessionsByPeer.insert session.peer session },
          ⟨some previous, true⟩)

def removeSession (manager : SessionManager) (session : TransportSession) : SessionManager :=
  { manager with
    sessionsByID :=
      if manager.sessionsByID.lookup session.receiveID = some session then
        manager.sessionsByID.erase session.receiveID
      else manager.sessionsByID
    sessionsByPeer :=
      if manager.sessionsByPeer.lookup session.peer = some session then
        manager.sessionsByPeer.erase session.peer
      else manager.sessionsByPeer }

/-- A call under the manager's lock. Whether the manager is running is read at
the call. -/
inductive Operation where
  | install (running : Bool) (session : TransportSession)
  | remove (session : TransportSession)

def step (manager : SessionManager) : Operation → SessionManager
  | .install running session => (manager.installSession running session).1
  | .remove session => manager.removeSession session

/-- The tables after the calls, oldest first. -/
def after (localInfo : Option Hash) (maxSessions : Nat) (operations : List Operation) :
    SessionManager :=
  run step (new localInfo maxSessions) operations

def selected (manager : SessionManager) (peer : Hash) : Option TransportSession :=
  manager.sessionsByPeer.lookup peer

section Cases

variable {manager : SessionManager} {running : Bool} {session : TransportSession}

inductive Accepts (manager : SessionManager) (session : TransportSession) :
    SessionManager → Prop where
  | first (hpeer : manager.sessionsByPeer.lookup session.peer = none)
      (hroom : manager.sessionsByID.entries.length < manager.maxSessions) :
      Accepts manager session
        { manager with
          sessionsByID := manager.sessionsByID.insert session.receiveID session
          sessionsByPeer := manager.sessionsByPeer.insert session.peer session }
  | beside {previous : TransportSession}
      (hpeer : manager.sessionsByPeer.lookup session.peer = some previous)
      (hpreferred : previous.inbound = preferInboundSession manager.localInfo session.peer)
      (hother : previous.inbound ≠ session.inbound) :
      Accepts manager session
        { manager with sessionsByID := manager.sessionsByID.insert session.receiveID session }
  | displaces {previous : TransportSession}
      (hpeer : manager.sessionsByPeer.lookup session.peer = some previous)
      (hwins : ¬ (previous.inbound = preferInboundSession manager.localInfo session.peer ∧
        previous.inbound ≠ session.inbound)) :
      Accepts manager session
        { manager with
          sessionsByID :=
            (manager.sessionsByID.insert session.receiveID session).erase previous.receiveID
          sessionsByPeer := manager.sessionsByPeer.insert session.peer session }

/-- An install is refused and changes nothing, or it is accepted. -/
theorem installSession_cases (manager : SessionManager) (running : Bool)
    (session : TransportSession) :
    (manager.installSession running session).2.ok = false ∧
        (manager.installSession running session).1 = manager ∧
        (running = false ∨ manager.sessionsByID.lookup session.receiveID ≠ none ∨
          manager.sessionsByPeer.lookup session.peer = none) ∨
      (manager.installSession running session).2.ok = true ∧ running = true ∧
        manager.sessionsByID.lookup session.receiveID = none ∧
        Accepts manager session (manager.installSession running session).1 := by
  unfold installSession
  split
  next hrefused =>
    refine .inl ⟨rfl, rfl, ?_⟩
    rcases hrefused with hstopped | htaken
    · exact .inl ((Bool.not_eq_true' _).mp hstopped)
    · exact .inr (.inl (isSome_iff_ne_none.mp htaken))
  next hfree =>
    simp only [not_or, Bool.not_eq_true', Bool.not_eq_false, Bool.not_eq_true,
      isSome_eq_false_iff, isNone_iff_eq_none] at hfree
    obtain ⟨hrunning, hfree⟩ := hfree
    split
    next hpeer =>
      split
      · exact .inl ⟨rfl, rfl, .inr (.inr hpeer)⟩
      next hroom => exact .inr ⟨rfl, hrunning, hfree, .first hpeer (Nat.lt_of_not_le hroom)⟩
    next previous hpeer =>
      split
      next hstays => exact .inr ⟨rfl, hrunning, hfree, .beside hpeer hstays.1 hstays.2⟩
      next hwins => exact .inr ⟨rfl, hrunning, hfree, .displaces hpeer hwins⟩

end Cases

section Registered

/-- Both tables are keyed by the sessions' own fields, and the session of a peer
is among those by identifier. -/
structure Registered (manager : SessionManager) : Prop where
  keyedByID : ∀ {receiveID session}, manager.sessionsByID.lookup receiveID = some session →
    session.receiveID = receiveID
  keyedByPeer : ∀ {peer session}, manager.sessionsByPeer.lookup peer = some session →
    session.peer = peer
  listed : ∀ {peer session}, manager.sessionsByPeer.lookup peer = some session →
    manager.sessionsByID.lookup session.receiveID = some session

variable {manager next : SessionManager} {session : TransportSession}

variable (h : Registered manager)
include h

theorem Registered.accepts (hfree : manager.sessionsByID.lookup session.receiveID = none)
    (haccepts : Accepts manager session next) : Registered next := by
  -- a session that is listed has another identifier than the new one
  have hlisted : ∀ {peer found}, manager.sessionsByPeer.lookup peer = some found →
      (manager.sessionsByID.insert session.receiveID session).lookup found.receiveID =
        some found := by
    intro peer found hfound
    have hold := h.listed hfound
    rw [lookup_insert_ne]
    · exact hold
    · intro hsame
      rw [hsame, hfree] at hold
      cases hold
  have hkeyed : ∀ {receiveID found},
      (manager.sessionsByID.insert session.receiveID session).lookup receiveID = some found →
        found.receiveID = receiveID := by
    intro receiveID found hfound
    obtain ⟨rfl, rfl⟩ | ⟨-, hold⟩ := lookup_insert_cases hfound
    · rfl
    · exact h.keyedByID hold
  have hpeers : ∀ {peer found},
      (manager.sessionsByPeer.insert session.peer session).lookup peer = some found →
        found.peer = peer := by
    intro peer found hfound
    obtain ⟨rfl, rfl⟩ | ⟨-, hold⟩ := lookup_insert_cases hfound
    · rfl
    · exact h.keyedByPeer hold
  cases haccepts with
  | first hpeer hroom =>
    refine ⟨hkeyed, hpeers, ?_⟩
    intro peer found hfound
    obtain ⟨rfl, rfl⟩ | ⟨-, hold⟩ := lookup_insert_cases hfound
    · exact lookup_insert _
    · exact hlisted hold
  | beside hpeer hpreferred hother => exact ⟨hkeyed, h.keyedByPeer, hlisted⟩
  | @displaces previous hpeer hwins =>
    have hprevious := h.listed hpeer
    refine ⟨?_, hpeers, ?_⟩
    · intro receiveID found hfound
      exact hkeyed (lookup_of_erase hfound).2
    · intro peer found hfound
      obtain ⟨rfl, rfl⟩ | ⟨hotherPeer, hold⟩ := lookup_insert_cases hfound
      · rw [lookup_erase_ne, lookup_insert]
        intro hsame
        rw [← hsame, hfree] at hprevious
        cases hprevious
      · rw [lookup_erase_ne]
        · exact hlisted hold
        · -- one identifier has one session, and that has one peer
          intro hsame
          have hboth := h.listed hold
          rw [hsame, hprevious] at hboth
          obtain rfl := some.inj hboth
          exact hotherPeer ((h.keyedByPeer hold).symm.trans (h.keyedByPeer hpeer))

theorem Registered.remove (session : TransportSession) :
    Registered (manager.removeSession session) := by
  have hbyID : ∀ {receiveID found},
      (manager.removeSession session).sessionsByID.lookup receiveID = some found →
        manager.sessionsByID.lookup receiveID = some found := by
    intro receiveID found hfound
    simp only [removeSession] at hfound
    split at hfound
    · exact (lookup_of_erase hfound).2
    · exact hfound
  have hbyPeer : ∀ {peer found},
      (manager.removeSession session).sessionsByPeer.lookup peer = some found →
        manager.sessionsByPeer.lookup peer = some found ∧ found ≠ session := by
    intro peer found hfound
    simp only [removeSession] at hfound
    split at hfound
    next hsession =>
      obtain ⟨hkey, hold⟩ := lookup_of_erase hfound
      refine ⟨hold, ?_⟩
      rintro rfl
      exact hkey (h.keyedByPeer hold).symm
    next hsession =>
      refine ⟨hfound, ?_⟩
      rintro rfl
      rw [← h.keyedByPeer hfound] at hfound
      exact hsession hfound
  refine ⟨fun hfound => h.keyedByID (hbyID hfound), fun hfound => h.keyedByPeer (hbyPeer hfound).1,
    ?_⟩
  intro peer found hfound
  obtain ⟨hold, hother⟩ := hbyPeer hfound
  have hlisted := h.listed hold
  simp only [removeSession]
  split
  next hsession =>
    rw [lookup_erase_ne]
    · exact hlisted
    · intro hsame
      rw [hsame, hsession] at hlisted
      exact hother (some.inj hlisted).symm
  · exact hlisted

theorem Registered.step (operation : Operation) : Registered (manager.step operation) := by
  cases operation with
  | install running session =>
    obtain ⟨-, hsame, -⟩ | ⟨-, -, hfree, haccepts⟩ := installSession_cases _ _ _
    · change Registered (manager.installSession running session).1
      rw [hsame]
      exact h
    · exact h.accepts hfree haccepts
  | remove session => exact h.remove _

end Registered

section Bound

variable {manager next : SessionManager} {session : TransportSession}

/-- The tables are as the manager means them to be: no more sessions than it
allows, and the session of every peer is among them. -/
def Contained (manager : SessionManager) : Prop :=
  manager.sessionsByID.entries.length ≤ manager.maxSessions ∧
    ∀ peer session, manager.sessionsByPeer.lookup peer = some session →
      manager.sessionsByID.lookup session.receiveID = some session

/-- An accepted session that is kept beside the preferred one of its peer finds
room in the table. -/
def FindsRoom (manager : SessionManager) : Operation → Prop
  | .install running session =>
    running = true → manager.sessionsByID.lookup session.receiveID = none →
      ∀ previous, manager.sessionsByPeer.lookup session.peer = some previous →
        previous.inbound = preferInboundSession manager.localInfo session.peer →
          previous.inbound ≠ session.inbound →
            manager.sessionsByID.entries.length < manager.maxSessions
  | .remove _ => True

/-- Only a session that is kept beside another one is not counted. -/
theorem contained_step_iff (manager : SessionManager) (operation : Operation)
    (hregistered : Registered manager) (hcontained : Contained manager) :
    Contained (manager.step operation) ↔ FindsRoom manager operation := by
  have hnext := hregistered.step operation
  have hlisted : Contained (manager.step operation) ↔
      (manager.step operation).sessionsByID.entries.length ≤ (manager.step operation).maxSessions :=
    and_iff_left fun peer session hfound => hnext.listed hfound
  rw [hlisted]
  cases operation with
  | remove session =>
    refine iff_of_true (Nat.le_trans ?_ hcontained.1) trivial
    simp only [SessionManager.step, removeSession]
    split
    · exact length_erase_le _ _
    · exact Nat.le_refl _
  | install running session =>
    change (manager.installSession running session).1.sessionsByID.entries.length ≤
      (manager.installSession running session).1.maxSessions ↔ _
    obtain ⟨-, hsame, hwhy⟩ | ⟨-, hrunning, hfree, haccepts⟩ := installSession_cases _ _ _
    · rw [hsame]
      refine iff_of_true hcontained.1 ?_
      intro hrunning hfree previous hprevious
      rcases hwhy with hstopped | htaken | hnobody
      · exact absurd hrunning (by simp [hstopped])
      · exact absurd hfree htaken
      · rw [hnobody] at hprevious
        cases hprevious
    · have hlength := length_insert_of_lookup_none session hfree
      generalize (manager.installSession running session).1 = installed at haccepts
      cases haccepts with
      | first hpeer hroom =>
        refine iff_of_true (hlength.trans_le hroom) ?_
        intro _ _ previous hprevious
        rw [hpeer] at hprevious
        cases hprevious
      | @beside previous hpeer hpreferred hother =>
        rw [hlength]
        constructor
        · intro hroom _ _ _ _ _ _
          exact hroom
        · intro hroom
          exact hroom hrunning hfree _ hpeer hpreferred hother
      | @displaces previous hpeer hwins =>
        have hprevious := hregistered.listed hpeer
        have hkept : (manager.sessionsByID.insert session.receiveID session).lookup
            previous.receiveID = some previous := by
          rw [lookup_insert_ne]
          · exact hprevious
          · intro hsame
            rw [hsame, hfree] at hprevious
            cases hprevious
        have herased := length_erase_of_lookup_some hkept
        have hcount := hcontained.1
        refine iff_of_true ?_ ?_
        · change ((manager.sessionsByID.insert session.receiveID session).erase
            previous.receiveID).entries.length ≤ manager.maxSessions
          omega
        · intro _ _ other hother hpreferred hdirection
          rw [hpeer] at hother
          obtain rfl := some.inj hother
          exact absurd ⟨hpreferred, hdirection⟩ hwins

/-- The tables stay as they should all along the calls exactly when every session
that is kept beside the preferred one of its peer finds room. -/
theorem contained_iff (localInfo : Option Hash) (maxSessions : Nat) (operations : List Operation) :
    (∀ done, done <+: operations → Contained (after localInfo maxSessions done)) ↔
      Along step FindsRoom (new localInfo maxSessions) operations := by
  refine forall_run_iff_along (fun _ operation h => Registered.step h operation)
    contained_step_iff ⟨fun h => (by cases h), fun h => (by cases h), fun h => (by cases h)⟩ ?_ _
  refine ⟨Nat.zero_le _, ?_⟩
  intro peer session hfound
  cases hfound

/-- A session of the peer with the hash of zeros, for which a router with the hash of
ones prefers the inbound direction. -/
def crossedSession (inbound : Bool) (handle : Nat) : TransportSession :=
  ⟨handle, FixedBytes.zero 32, UInt64.ofNat handle, inbound⟩

/-- One peer fills a table for a single session with three. -/
theorem contained_exceeded :
    ¬ Contained (after (some ⟨List.replicate 32 1, rfl⟩) 1
      [.install true (crossedSession true 1), .install true (crossedSession false 2),
        .install true (crossedSession false 3)]) := by
  intro hcontained
  exact absurd hcontained.1 (by decide)

end Bound

end SessionManager

end Ivnp.Ssu2
