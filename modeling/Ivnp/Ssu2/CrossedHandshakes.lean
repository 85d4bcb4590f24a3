import Ivnp.Ssu2.SessionTable

/-!
Crossed handshakes. Two routers that connect to each other at the same time install
a session per direction, in an order of their own. Each selects the last session of
the direction it prefers, and the two preferences name the same initiator.
-/

namespace Ivnp.Ssu2

open Ivnp.Lib Ivnp.Foundation List Option

def canonicalSession (preferInbound : Bool) (sessions : List TransportSession) :
    Option TransportSession :=
  (sessions.filter fun session => session.inbound = preferInbound).getLast?.or sessions.getLast?

/-- The router that started the connection, seen from the one with `localHash`. -/
def TransportSession.initiator (localHash : Hash) (session : TransportSession) : Hash :=
  if session.inbound then session.peer else localHash

namespace SessionManager

def installAll (manager : SessionManager) :
    List (Bool × TransportSession) → SessionManager × List TransportSession
  | [] => (manager, [])
  | (running, session) :: rest =>
    let installed := manager.installSession running session
    let others := installed.1.installAll rest
    (others.1, if installed.2.ok then session :: others.2 else others.2)

def acceptedWith (manager : SessionManager) (peer : Hash)
    (installs : List (Bool × TransportSession)) : List TransportSession :=
  (manager.installAll installs).2.filter fun session => session.peer = peer

end SessionManager

section Canonical

variable {preferInbound : Bool} {sessions : List TransportSession}
  {session previous : TransportSession}

theorem canonicalSession_concat_preferred (h : session.inbound = preferInbound) :
    canonicalSession preferInbound (sessions ++ [session]) = some session := by
  simp [canonicalSession, filter_append, h]

theorem canonicalSession_concat_other (h : session.inbound ≠ preferInbound) :
    canonicalSession preferInbound (sessions ++ [session]) =
      (sessions.filter fun session => session.inbound = preferInbound).getLast?.or
        (some session) := by
  simp [canonicalSession, filter_append, h]

theorem preferred_of_canonicalSession
    (h : canonicalSession preferInbound sessions = some previous) :
    (sessions.filter fun session => session.inbound = preferInbound).getLast? =
      if previous.inbound = preferInbound then some previous else none := by
  unfold canonicalSession at h
  cases hlast : (sessions.filter fun session => session.inbound = preferInbound).getLast? with
  | none =>
    rw [hlast] at h
    have hnone := getLast?_eq_none_iff.mp hlast
    rw [filter_eq_nil_iff] at hnone
    have hmem := mem_of_getLast? h
    rw [if_neg]
    intro hpreferred
    exact hnone _ hmem (decide_eq_true hpreferred)
  | some last =>
    rw [hlast] at h
    obtain rfl := some.inj h
    have hmem := mem_of_getLast? hlast
    rw [if_pos (of_decide_eq_true (mem_filter.mp hmem).2)]

theorem exists_canonicalSession (hmem : session ∈ sessions)
    (hpreferred : session.inbound = preferInbound) :
    ∃ selected ∈ sessions, canonicalSession preferInbound sessions = some selected ∧
      selected.inbound = preferInbound := by
  have hfiltered : session ∈ sessions.filter fun session => session.inbound = preferInbound :=
    mem_filter.mpr ⟨hmem, decide_eq_true hpreferred⟩
  obtain ⟨last, hlast⟩ := isSome_iff_exists.mp (getLast?_isSome.mpr (ne_nil_of_mem hfiltered))
  obtain ⟨hlastMem, hlastPreferred⟩ := mem_filter.mp (mem_of_getLast? hlast)
  refine ⟨last, hlastMem, ?_, of_decide_eq_true hlastPreferred⟩
  unfold canonicalSession
  rw [hlast, some_or]

end Canonical

namespace SessionManager

section Selection

variable {manager next : SessionManager} {session : TransportSession}
  {sessions : List TransportSession}

variable (h : Accepts manager session next)
include h

theorem localInfo_accepts : next.localInfo = manager.localInfo := by cases h <;> rfl

theorem selected_accepts_of_ne {peer : Hash}
    (hpeer : session.peer ≠ peer) : next.selected peer = manager.selected peer := by
  cases h with
  | first => exact AList.lookup_insert_ne hpeer.symm
  | beside => rfl
  | displaces => exact AList.lookup_insert_ne hpeer.symm

/-- An accepted session of the peer is selected unless it would displace a
preferred one. -/
theorem selected_accepts
    (hpast : manager.selected session.peer =
      canonicalSession (preferInboundSession manager.localInfo session.peer) sessions) :
    next.selected session.peer =
      canonicalSession (preferInboundSession manager.localInfo session.peer)
        (sessions ++ [session]) := by
  unfold selected at hpast ⊢
  cases h with
  | first hpeer hroom =>
    rw [AList.lookup_insert]
    by_cases hpreferred : session.inbound = preferInboundSession manager.localInfo session.peer
    · rw [canonicalSession_concat_preferred hpreferred]
    rw [hpeer] at hpast
    have hnothing := or_eq_none_iff.mp hpast.symm
    rw [canonicalSession_concat_other hpreferred, hnothing.1, none_or]
  | @beside previous hpeer hpreferred hother =>
    rw [hpeer] at hpast
    have hlast := preferred_of_canonicalSession hpast.symm
    rw [if_pos hpreferred] at hlast
    rw [canonicalSession_concat_other (fun hsame => hother (hpreferred.trans hsame.symm)), hlast]
    exact hpeer
  | @displaces previous hpeer hwins =>
    rw [AList.lookup_insert]
    by_cases hpreferred : session.inbound = preferInboundSession manager.localInfo session.peer
    · rw [canonicalSession_concat_preferred hpreferred]
    rw [hpeer] at hpast
    have hlast := preferred_of_canonicalSession hpast.symm
    rw [if_neg] at hlast
    · rw [canonicalSession_concat_other hpreferred, hlast, none_or]
    · intro hprevious
      exact hwins ⟨hprevious, fun hsame => hpreferred (hsame.symm.trans hprevious)⟩

omit h

/-- From a selection that is right for the past, installs lead to the one that is
right for the past and what they accepted. -/
theorem selected_installAll (peer : Hash) (installs : List (Bool × TransportSession))
    (hpast : manager.selected peer =
      canonicalSession (preferInboundSession manager.localInfo peer) sessions) :
    (manager.installAll installs).1.selected peer =
      canonicalSession (preferInboundSession manager.localInfo peer)
        (sessions ++ manager.acceptedWith peer installs) := by
  induction installs generalizing manager sessions with
  | nil =>
    simp only [acceptedWith, installAll, filter_nil, append_nil]
    exact hpast
  | cons install rest ih =>
    obtain ⟨running, session⟩ := install
    obtain ⟨hrefused, hsame, -⟩ | ⟨hok, -, -, haccepts⟩ :=
      installSession_cases manager running session
    · have hrest := ih hpast
      simp only [acceptedWith, installAll, hrefused, hsame]
      exact hrest
    · have hinfo := localInfo_accepts haccepts
      simp only [acceptedWith, installAll, hok, if_true]
      by_cases hpeer : session.peer = peer
      · subst hpeer
        have hselected := selected_accepts haccepts hpast
        rw [← hinfo] at hselected
        have hrest := ih hselected
        rw [hinfo, append_assoc] at hrest
        rw [filter_cons_of_pos (by simp)]
        exact hrest
      · have hselected := selected_accepts_of_ne haccepts hpeer
        rw [← hinfo] at hpast
        have hrest := ih (hselected.trans hpast)
        rw [hinfo] at hrest
        rw [filter_cons_of_neg (by simpa using hpeer)]
        exact hrest

end Selection

end SessionManager

theorem preferInboundSession_comm {alice bob : Hash} (h : alice ≠ bob) :
    preferInboundSession (some bob) alice = !preferInboundSession (some alice) bob := by
  simp only [preferInboundSession]
  rw [compareBytes_swap]
  cases hcompare : compareBytes alice.val bob.val with
  | lt => rfl
  | eq => exact absurd (Subtype.ext (eq_of_compareBytes_eq hcompare)) h
  | gt => rfl

def BothDirections (sessions : List TransportSession) : Prop :=
  ∀ inbound, ∃ session ∈ sessions, session.inbound = inbound

open SessionManager in
/-- The sessions of each router are those it accepted, and of two routers that
accepted each other in both directions each selects the connection that the same one
of them initiated. -/
theorem crossed_handshakes_converge :
    (∀ localInfo maxSessions installs peer,
      ((new localInfo maxSessions).installAll installs).1.selected peer =
        canonicalSession (preferInboundSession localInfo peer)
          ((new localInfo maxSessions).acceptedWith peer installs)) ∧
    ∀ alice bob : Hash, alice ≠ bob → ∀ maxAlice maxBob installsAlice installsBob,
      BothDirections ((new (some alice) maxAlice).acceptedWith bob installsAlice) →
      BothDirections ((new (some bob) maxBob).acceptedWith alice installsBob) →
        ∃ atAlice atBob,
          ((new (some alice) maxAlice).installAll installsAlice).1.selected bob = some atAlice ∧
          ((new (some bob) maxBob).installAll installsBob).1.selected alice = some atBob ∧
          atAlice.inbound = preferInboundSession (some alice) bob ∧
          atBob.inbound = preferInboundSession (some bob) alice ∧
          atAlice.initiator alice = atBob.initiator bob := by
  have hselected : ∀ localInfo maxSessions installs peer,
      ((new localInfo maxSessions).installAll installs).1.selected peer =
        canonicalSession (preferInboundSession localInfo peer)
          ((new localInfo maxSessions).acceptedWith peer installs) :=
    fun localInfo maxSessions installs peer =>
      @selected_installAll (new localInfo maxSessions) [] peer installs rfl
  refine ⟨hselected, ?_⟩
  intro alice bob hne maxAlice maxBob installsAlice installsBob hAlice hBob
  obtain ⟨_, hmemAlice, hdirectionAlice⟩ := hAlice (preferInboundSession (some alice) bob)
  obtain ⟨_, hmemBob, hdirectionBob⟩ := hBob (preferInboundSession (some bob) alice)
  obtain ⟨atAlice, haccepted, hatAlice, hinboundAlice⟩ :=
    exists_canonicalSession hmemAlice hdirectionAlice
  obtain ⟨atBob, hacceptedBob, hatBob, hinboundBob⟩ := exists_canonicalSession hmemBob hdirectionBob
  refine ⟨atAlice, atBob, (hselected _ _ _ _).trans hatAlice, (hselected _ _ _ _).trans hatBob,
    hinboundAlice, hinboundBob, ?_⟩
  have hpeerAlice : atAlice.peer = bob := of_decide_eq_true (mem_filter.mp haccepted).2
  have hpeerBob : atBob.peer = alice := of_decide_eq_true (mem_filter.mp hacceptedBob).2
  unfold TransportSession.initiator
  rw [hinboundAlice, hinboundBob, preferInboundSession_comm hne, hpeerAlice, hpeerBob]
  cases preferInboundSession (some alice) bob <;> rfl

def crossedAlice : Hash := FixedBytes.copy 32 (List.replicate 32 1)

def crossedBob : Hash := FixedBytes.zero 32

open SessionManager in
/-- Alice has the inbound session first and repeats the outbound one, and Bob has
them the other way. -/
theorem crossed_handshakes_converge_repeated :
    ∃ atAlice atBob,
      ((new (some crossedAlice) 8).installAll
        [(true, ⟨1, crossedBob, 1, true⟩), (true, ⟨2, crossedBob, 2, false⟩),
          (true, ⟨3, crossedBob, 3, false⟩)]).1.selected crossedBob = some atAlice ∧
      ((new (some crossedBob) 8).installAll
        [(true, ⟨1, crossedAlice, 1, true⟩), (true, ⟨2, crossedAlice, 2, false⟩)]).1.selected
          crossedAlice = some atBob ∧
      atAlice.inbound = preferInboundSession (some crossedAlice) crossedBob ∧
      atBob.inbound = preferInboundSession (some crossedBob) crossedAlice ∧
      atAlice.initiator crossedAlice = atBob.initiator crossedBob := by
  refine crossed_handshakes_converge.2 crossedAlice crossedBob (by decide) 8 8 _ _ ?_ ?_
  · intro inbound
    cases inbound <;> decide
  · intro inbound
    cases inbound <;> decide

end Ivnp.Ssu2
