import Ivnp.Ssu2.SendLedger

/-!
The window and the bytes that are out. What is left of the window and what the slots in use
and the sends not yet recorded have reserved make up at least the whole window, so a session
with nothing reserved can send a packet of full size. A send whose write fails after its
packet has been acknowledged would break this, so such runs are left out.
-/

namespace Ivnp.Ssu2

open Ivnp.Lib Option Function Finset SendLedger WindowSession
open WindowSession (AckSweep)

structure Balanced (window : SendWindow) (reserved : Int) : Prop where
  nonneg : 0 ≤ window.sendWindowRemaining
  within : window.sendWindowRemaining ≤ window.sendWindowBytes
  low : ssu2MaximumNetworkMTU ≤ window.sendWindowBytes
  high : window.sendWindowBytes ≤ ssu2MaximumSendWindow
  covered : window.sendWindowBytes ≤ window.sendWindowRemaining + reserved
  mtu : ssu2MinimumNetworkMTU ≤ window.mtu
  largeMTU : ssu2MinimumNetworkMTU ≤ window.largeMTU

theorem adjustMTU_keeps {window : SendWindow} (hmtu : ssu2MinimumNetworkMTU ≤ window.mtu)
    (hlarge : ssu2MinimumNetworkMTU ≤ window.largeMTU) (packetSize : Int) (success : Bool) :
    (window.adjustMTU packetSize success).sendWindowBytes = window.sendWindowBytes ∧
      (window.adjustMTU packetSize success).sendWindowRemaining = window.sendWindowRemaining ∧
      ssu2MinimumNetworkMTU ≤ (window.adjustMTU packetSize success).mtu ∧
      ssu2MinimumNetworkMTU ≤ (window.adjustMTU packetSize success).largeMTU := by
  have hstep : ssu2MTUStep = 64 := rfl
  unfold SendWindow.adjustMTU
  split
  · split
    · dsimp only
      omega
    · exact ⟨rfl, rfl, hmtu, hlarge⟩
  · split
    · exact ⟨rfl, rfl, le_max_right _ _, hlarge⟩
    · exact ⟨rfl, rfl, hmtu, hlarge⟩

namespace Balanced

variable {window : SendWindow} {reserved bytes packetSize : Int}

theorem initReliability (largeMTU : Int) : Balanced (.initReliability largeMTU) 0 where
  nonneg := show (0 : Int) ≤ 3 * ssu2MinimumNetworkMTU by decide
  within := le_rfl
  low := show ssu2MaximumNetworkMTU ≤ 3 * ssu2MinimumNetworkMTU by decide
  high := show 3 * ssu2MinimumNetworkMTU ≤ ssu2MaximumSendWindow by decide
  covered := by exact le_rfl
  mtu := le_rfl
  largeMTU := by
    have hbounds : ssu2MinimumNetworkMTU ≤ ssu2MaximumNetworkMTU := by decide
    exact le_min (le_max_right _ _) hbounds

theorem reserve (h : Balanced window reserved) (hbytes : 0 ≤ bytes)
    (hroom : bytes ≤ window.sendWindowRemaining) :
    Balanced (window.reserve bytes) (reserved + bytes) := by
  obtain ⟨hnonneg, hwithin, hlow, hhigh, hcovered, hmtu, hlarge⟩ := h
  refine ⟨?_, ?_, hlow, hhigh, ?_, hmtu, hlarge⟩ <;> simp only [SendWindow.reserve] <;> omega

theorem credit (h : Balanced window (bytes + reserved)) (hbytes : 0 ≤ bytes)
    (hreserved : 0 ≤ reserved) : Balanced (window.credit bytes) reserved := by
  obtain ⟨hnonneg, hwithin, hlow, hhigh, hcovered, hmtu, hlarge⟩ := h
  unfold SendWindow.credit
  split
  · refine ⟨?_, ?_, hlow, hhigh, ?_, hmtu, hlarge⟩ <;> dsimp only <;> omega
  · refine ⟨hnonneg, hwithin, hlow, hhigh, ?_, hmtu, hlarge⟩
    omega

theorem transmitted (h : Balanced window reserved) (packetsTransmitted : UInt64) :
    Balanced { window with packetsTransmitted } reserved :=
  ⟨h.nonneg, h.within, h.low, h.high, h.covered, h.mtu, h.largeMTU⟩

theorem adjustMTU (h : Balanced window reserved) (packetSize : Int) (success : Bool) :
    Balanced (window.adjustMTU packetSize success) reserved := by
  obtain ⟨hbytes, hremaining, hmtu, hlarge⟩ := adjustMTU_keeps h.mtu h.largeMTU packetSize success
  obtain ⟨hnonneg, hwithin, hlow, hhigh, hcovered, -, -⟩ := h
  refine ⟨?_, ?_, ?_, ?_, ?_, hmtu, hlarge⟩ <;> omega

/-- An acknowledgement gives back the bytes, and again as many if the window grows by them. -/
theorem messageACKed (h : Balanced window (bytes + reserved)) (hbytes : 0 ≤ bytes)
    (hreserved : 0 ≤ reserved) (attempts : UInt8) (packetSize : Int) (random : Option UInt64) :
    Balanced (window.messageACKed attempts bytes packetSize random) reserved := by
  obtain ⟨hnonneg, hwithin, hlow, hhigh, hcovered, hmtu, hlarge⟩ := h
  have hpositive : (0 : Int) ≤ ssu2MaximumNetworkMTU := by decide
  have hcount (counted : SendWindow) (hremaining : 0 ≤ counted.sendWindowRemaining)
      (hlow : ssu2MaximumNetworkMTU ≤ counted.sendWindowBytes)
      (hhigh : counted.sendWindowBytes ≤ ssu2MaximumSendWindow)
      (hcovered : counted.sendWindowBytes ≤ counted.sendWindowRemaining + bytes + reserved)
      (hmtu : ssu2MinimumNetworkMTU ≤ counted.mtu)
      (hlarge : ssu2MinimumNetworkMTU ≤ counted.largeMTU) :
      Balanced { counted with
        sendWindowRemaining := min counted.sendWindowBytes (counted.sendWindowRemaining + bytes) }
        reserved := by
    refine ⟨?_, ?_, hlow, hhigh, ?_, hmtu, hlarge⟩ <;> dsimp only <;> omega
  unfold SendWindow.messageACKed
  dsimp only
  split
  · split
    · obtain ⟨hb, hr, hm, hl⟩ := @adjustMTU_keeps { window with
        sendWindowBytes := min ssu2MaximumSendWindow (window.sendWindowBytes + bytes)
        sendWindowRemaining := window.sendWindowRemaining + bytes } hmtu hlarge packetSize true
      dsimp only at hb hr
      apply hcount _ _ _ _ _ hm hl <;> omega
    · obtain ⟨hb, hr, hm, hl⟩ := adjustMTU_keeps hmtu hlarge _ _
      apply hcount _ _ _ _ _ hm hl <;> omega
  · exact hcount _ hnonneg hlow hhigh (by omega) hmtu hlarge

theorem noteCongestion (h : Balanced window reserved) (hreserved : 0 ≤ reserved)
    (fast elapsed : Bool) (packetSize : Int) :
    Balanced (window.noteCongestion fast elapsed packetSize) reserved := by
  obtain ⟨hnonneg, hwithin, hlow, hhigh, hcovered, hmtu, hlarge⟩ := h
  have hconstants : ssu2MaximumNetworkMTU = 1500 ∧ ssu2MinimumNetworkMTU = 1280 ∧
      ssu2MaximumSendWindow = 1048576 := ⟨rfl, rfl, rfl⟩
  apply adjustMTU
  cases fast with
  | true =>
    rw [if_pos rfl]
    refine ⟨?_, ?_, ?_, ?_, ?_, hmtu, hlarge⟩ <;> dsimp only <;> omega
  | false =>
    rw [if_neg Bool.false_ne_true]
    cases elapsed with
    | true =>
      rw [if_pos rfl]
      refine ⟨?_, ?_, ?_, ?_, ?_, hmtu, hlarge⟩ <;> dsimp only <;> omega
    | false => exact ⟨hnonneg, hwithin, hlow, hhigh, hcovered, hmtu, hlarge⟩

end Balanced

/-- What a call holds of the window before its packet is recorded in its slot. -/
def SendCall.pendingBytes (entry : SendCall) : Int :=
  if entry.number = none then entry.windowBytes else 0

namespace SendLedger

def liveSlots (ledger : SendLedger) : Finset Nat :=
  ledger.sentSlots.toFinset.filter fun slot => ledger.inUse slot = true

/-- The bytes reserved by live slots and by sends that are not yet recorded. -/
def reserved (ledger : SendLedger) : Int :=
  ∑ slot ∈ ledger.liveSlots, ledger.bytes slot + Table.sum SendCall.pendingBytes ledger.calls

/-- The slots, the packet numbers that lead to them and the calls fit together. -/
structure Linked (ledger : SendLedger) : Prop where
  used : ∀ slot, ledger.inUse slot = true → slot ∈ ledger.sentSlots
  aliased : ∀ number slot, ledger.sent.lookup number = some slot → ledger.inUse slot = true
  pending : ∀ call entry slot, ledger.calls.lookup call = some entry → entry.number = none →
    entry.retained = some slot → ledger.inUse slot = true ∧ ledger.history.owner slot = call ∧
      ledger.bytes slot = 0 ∧ ∀ number, ledger.sent.lookup number ≠ some slot
  recorded : ∀ call entry, ledger.calls.lookup call = some entry → entry.number.isSome = true →
    ledger.packetMu = .sender call
  holder : ∀ call entry, ledger.packetMu = .sender call → ledger.calls.lookup call = some entry →
    entry.number.isSome = true
  held : ∀ call, ledger.packetMu = .sender call → call < ledger.nextCall
  written : ∀ call entry number slot, ledger.calls.lookup call = some entry →
    entry.number = some number → entry.retained = some slot →
      ledger.sent.lookup number = some slot → ledger.bytes slot = entry.windowBytes
  uncontrolled : ∀ call entry, ledger.calls.lookup call = some entry → entry.retained = none →
    entry.windowBytes = 0
  known : ∀ call entry, ledger.calls.lookup call = some entry → call < ledger.nextCall
  amounts : ∀ call entry, ledger.calls.lookup call = some entry → 0 ≤ entry.windowBytes
  nonneg : ∀ slot, 0 ≤ ledger.bytes slot

variable {ledger other : SendLedger}

theorem mem_liveSlots (h : ledger.Linked) (slot : Nat) :
    slot ∈ ledger.liveSlots ↔ ledger.inUse slot = true := by
  rw [liveSlots, mem_filter, List.mem_toFinset]
  exact ⟨fun hmem => hmem.2, fun hused => ⟨h.used _ hused, hused⟩⟩

theorem sum_pendingBytes_erase {calls : Table Nat SendCall} {call : Nat} {entry : SendCall}
    (hlookup : calls.lookup call = some entry) :
    Table.sum SendCall.pendingBytes calls =
      entry.pendingBytes + Table.sum SendCall.pendingBytes (calls.erase call) := by
  rw [Table.sum_erase, hlookup]
  rfl

theorem Linked.sum_nonneg (h : ledger.Linked) :
    0 ≤ Table.sum SendCall.pendingBytes ledger.calls := by
  apply List.sum_nonneg
  intro bytes hmem
  obtain ⟨⟨call, entry⟩, hentry, rfl⟩ := List.mem_map.mp hmem
  have hamount := h.amounts _ _ (AList.mem_lookup_iff.mpr hentry)
  dsimp only [SendCall.pendingBytes]
  split
  · exact hamount
  · exact le_rfl

theorem Linked.reserved_nonneg (h : ledger.Linked) : 0 ≤ ledger.reserved :=
  add_nonneg (Finset.sum_nonneg fun slot _ => h.nonneg slot) h.sum_nonneg

theorem nonneg_update {bytes : Nat → Int} (h : ∀ slot, 0 ≤ bytes slot) {value : Int}
    (hvalue : 0 ≤ value) (slot : Nat) : ∀ found, 0 ≤ Function.update bytes slot value found := by
  intro found
  by_cases hfound : found = slot
  · rw [hfound, update_self]
    exact hvalue
  · rw [update_of_ne hfound]
    exact h _

theorem liveSlots_congr (h : ledger.Linked) (hother : other.Linked)
    (hinUse : other.inUse = ledger.inUse) : other.liveSlots = ledger.liveSlots := by
  ext slot
  rw [mem_liveSlots hother, mem_liveSlots h, hinUse]

theorem reserved_congr (h : ledger.Linked) (hother : other.Linked)
    (hinUse : other.inUse = ledger.inUse) (hbytes : other.bytes = ledger.bytes)
    (hcalls : Table.sum SendCall.pendingBytes other.calls =
      Table.sum SendCall.pendingBytes ledger.calls) : other.reserved = ledger.reserved := by
  rw [reserved, reserved, liveSlots_congr h hother hinUse, hbytes, hcalls]

theorem sum_liveSlots_insert (h : ledger.Linked) (hother : other.Linked) {slot : Nat}
    (hslot : ledger.inUse slot = false) (hinUse : other.inUse = Function.update ledger.inUse slot true)
    (hbytes : ∀ found, found ≠ slot → other.bytes found = ledger.bytes found) :
    ∑ found ∈ other.liveSlots, other.bytes found =
      other.bytes slot + ∑ found ∈ ledger.liveSlots, ledger.bytes found := by
  have hnew : slot ∉ ledger.liveSlots := by
    rw [mem_liveSlots h, hslot]
    exact Bool.false_ne_true
  have hlive : other.liveSlots = insert slot ledger.liveSlots := by
    ext found
    rw [mem_liveSlots hother, mem_insert, mem_liveSlots h, hinUse]
    by_cases hfound : found = slot
    · subst hfound
      simp
    · simp [hfound]
  rw [hlive, sum_insert hnew]
  apply congrArg (other.bytes slot + ·)
  apply sum_congr rfl
  intro found hfound
  exact hbytes _ fun heq => hnew (heq ▸ hfound)

theorem Linked.idle (h : ledger.Linked) {packetMu : PacketMutex}
    (hkeeps : ledger.packetMu.Keeps packetMu none) (window : SendWindow) :
    Linked { ledger with packetMu, window } :=
  { h with
    recorded := fun call entry hlookup hnumber =>
      hkeeps.kept _ nofun (h.recorded call entry hlookup hnumber)
    holder := fun call entry hmutex => h.holder _ entry (hkeeps.given call hmutex)
    held := fun call hmutex => h.held _ (hkeeps.given call hmutex) }

theorem Linked.shrink (h : ledger.Linked) {count : Nat}
    (hfree : ∀ slot ∈ ledger.sentSlots.drop count, ledger.inUse slot = false) :
    Linked { ledger with sentSlots := ledger.sentSlots.take count } := by
  refine { h with used := fun slot hused => ?_ }
  have hmem := h.used _ hused
  rw [← List.take_append_drop _ ledger.sentSlots, List.mem_append] at hmem
  rcases hmem with htake | hdrop
  · exact htake
  · cases (hfree slot hdrop).symm.trans hused

section Reserve

variable {slot : Nat} {entry : SendCall} {sentSlots : List Nat} {nextSlot : Nat}
  {window : SendWindow}

variable (h : ledger.Linked)
include h

theorem nextCall_new : ledger.calls.lookup ledger.nextCall = none := by
  cases hlookup : ledger.calls.lookup ledger.nextCall with
  | none => rfl
  | some entry => exact absurd (h.known _ _ hlookup) (Nat.lt_irrefl _)

theorem sum_pendingBytes_insert (entry : SendCall) :
    Table.sum SendCall.pendingBytes (ledger.calls.insert ledger.nextCall entry) =
      entry.pendingBytes + Table.sum SendCall.pendingBytes ledger.calls := by
  rw [Table.sum_insert, Table.sum_erase _ ledger.calls, nextCall_new h]
  simp

theorem Linked.recorded_insert (hphase : entry.number = none) :
    ∀ call found, (ledger.calls.insert ledger.nextCall entry).lookup call = some found →
      found.number.isSome = true → ledger.packetMu = .sender call :=
  Table.forall_lookup_insert (by simp [hphase]) h.recorded

theorem Linked.holder_insert (call : Nat) (found : SendCall)
    (hmutex : ledger.packetMu = .sender call)
    (hlookup : (ledger.calls.insert ledger.nextCall entry).lookup call = some found) :
    found.number.isSome = true := by
  rcases Table.lookup_insert_cases hlookup with ⟨rfl, -⟩ | ⟨-, hold⟩
  · exact absurd (h.held _ hmutex) (Nat.lt_irrefl _)
  · exact h.holder _ _ hmutex hold

theorem Linked.known_insert :
    ∀ call found, (ledger.calls.insert ledger.nextCall entry).lookup call = some found →
      call < ledger.nextCall + 1 :=
  Table.forall_lookup_insert (Nat.lt_succ_self _) fun call found hold =>
    Nat.lt_succ_of_lt (h.known call found hold)

theorem Linked.retain (hfree : ledger.inUse slot = false) (hmem : slot ∈ sentSlots)
    (hgrown : ledger.sentSlots ⊆ sentSlots) (hslot : entry.retained = some slot)
    (hphase : entry.number = none) (hamount : 0 ≤ entry.windowBytes) :
    Linked { ledger with
      inUse := Function.update ledger.inUse slot true
      bytes := Function.update ledger.bytes slot 0
      sentSlots
      nextSlot
      calls := ledger.calls.insert ledger.nextCall entry
      nextCall := ledger.nextCall + 1
      window
      history := { ledger.history with
        owner := Function.update ledger.history.owner slot ledger.nextCall } } := by
  have hother {found : Nat} (hused : ledger.inUse found = true) : found ≠ slot := by
    rintro rfl
    rw [hused] at hfree
    cases hfree
  have hunaliased (number : UInt32) : ledger.sent.lookup number ≠ some slot :=
    fun hlookup => hother (h.aliased _ _ hlookup) rfl
  exact
    { used := by
        intro found hused
        by_cases hfound : found = slot
        · exact hfound ▸ hmem
        · have hold := (update_of_ne hfound _ _).symm.trans hused
          exact hgrown (h.used _ hold)
      aliased := by
        intro number found hlookup
        have hused := h.aliased _ _ hlookup
        exact (update_of_ne (hother hused) _ _).trans hused
      pending := by
        intro call found place
        apply Table.forall_lookup_insert
        · intro _ hretained
          cases hslot.symm.trans hretained
          exact ⟨update_self _ _ _, update_self _ _ _, update_self _ _ _, hunaliased⟩
        · intro call found hold hnone hretained
          obtain ⟨hused, howner, hbytes, halias⟩ := h.pending _ _ _ hold hnone hretained
          have hne := hother hused
          exact ⟨(update_of_ne hne _ _).trans hused, (update_of_ne hne _ _).trans howner,
            (update_of_ne hne _ _).trans hbytes, halias⟩
      recorded := h.recorded_insert hphase
      holder := h.holder_insert
      held := fun call hmutex => Nat.lt_succ_of_lt (h.held _ hmutex)
      written := by
        intro call found number place
        apply Table.forall_lookup_insert
        · exact fun hnumber => nomatch hphase.symm.trans hnumber
        · intro call found hold hnumber hretained halias
          exact (update_of_ne (hother (h.aliased _ _ halias)) _ _).trans
            (h.written _ _ _ _ hold hnumber hretained halias)
      uncontrolled := Table.forall_lookup_insert (fun hnone => nomatch hslot.symm.trans hnone)
        h.uncontrolled
      known := h.known_insert
      amounts := Table.forall_lookup_insert hamount h.amounts
      nonneg := nonneg_update h.nonneg le_rfl _ }

theorem reserved_retain (hfree : ledger.inUse slot = false) (hphase : entry.number = none)
    (hother : other.Linked) (hinUse : other.inUse = Function.update ledger.inUse slot true)
    (hbytes : other.bytes = Function.update ledger.bytes slot 0)
    (hcalls : other.calls = ledger.calls.insert ledger.nextCall entry) :
    other.reserved = ledger.reserved + entry.windowBytes := by
  have hsum := sum_liveSlots_insert h hother hfree hinUse fun found hfound => by
    rw [hbytes, update_of_ne hfound]
  rw [reserved, reserved, hsum, hcalls, sum_pendingBytes_insert h, hbytes, update_self,
    SendCall.pendingBytes, if_pos hphase]
  ring

theorem Linked.unretained (hslot : entry.retained = none)
    (hphase : entry.number = none) (hzero : entry.windowBytes = 0) :
    Linked { ledger with
      calls := ledger.calls.insert ledger.nextCall entry
      nextCall := ledger.nextCall + 1 } :=
  { h with
    pending := fun call found place => Table.forall_lookup_insert
      (fun _ hretained => nomatch hslot.symm.trans hretained)
      (fun call found => h.pending call found place) call found
    recorded := h.recorded_insert hphase
    holder := h.holder_insert
    held := fun call hmutex => Nat.lt_succ_of_lt (h.held call hmutex)
    written := fun call found number place => Table.forall_lookup_insert
      (fun _ hretained => nomatch hslot.symm.trans hretained)
      (fun call found => h.written call found number place) call found
    uncontrolled := Table.forall_lookup_insert (fun _ => hzero) h.uncontrolled
    known := h.known_insert
    amounts := Table.forall_lookup_insert hzero.ge h.amounts }

end Reserve

section Release

variable {call slot : Nat} {entry : SendCall} {packetMu : PacketMutex} {window : SendWindow}

variable (h : ledger.Linked) (hkeeps : ledger.packetMu.Keeps packetMu (some call))
include h hkeeps

theorem Linked.erase
    (window : SendWindow) (history : SendHistory) (howner : history.owner = ledger.history.owner) :
    Linked { ledger with calls := ledger.calls.erase call, packetMu, window, history } :=
  { h with
    pending := by
      intro other found place hlookup hnone hretained
      rw [howner]
      exact h.pending _ _ _ (Table.lookup_of_erase hlookup).2 hnone hretained
    recorded := by
      intro other found hlookup hnumber
      obtain ⟨hother, hold⟩ := Table.lookup_of_erase hlookup
      exact hkeeps.kept _ (fun heq => hother (some.inj heq).symm)
        (h.recorded _ _ hold hnumber)
    holder := fun other found hmutex hlookup =>
      h.holder _ _ (hkeeps.given _ hmutex) (Table.lookup_of_erase hlookup).2
    held := fun other hmutex => h.held _ (hkeeps.given _ hmutex)
    written := fun other found number place hlookup =>
      h.written _ _ _ _ (Table.lookup_of_erase hlookup).2
    uncontrolled := fun other found hlookup => h.uncontrolled _ _ (Table.lookup_of_erase hlookup).2
    known := fun other found hlookup => h.known _ _ (Table.lookup_of_erase hlookup).2
    amounts := fun other found hlookup => h.amounts _ _ (Table.lookup_of_erase hlookup).2 }

theorem Linked.release
    (hothers : ∀ other found, other ≠ call → ledger.calls.lookup other = some found →
      found.number = none → found.retained ≠ some slot)
    (window : SendWindow) (history : SendHistory) (howner : history.owner = ledger.history.owner) :
    Linked { ledger with
      inUse := Function.update ledger.inUse slot false
      sent := ledger.sent.keep fun _ other => other ≠ slot
      bytes := Function.update ledger.bytes slot 0
      calls := ledger.calls.erase call
      packetMu
      window
      history } := by
  have herase := h.erase hkeeps window history howner
  have hsent (number : UInt32) (place : Nat)
      (hlookup : (ledger.sent.keep fun _ other => other ≠ slot).lookup number = some place) :
      ledger.sent.lookup number = some place ∧ place ≠ slot := by
    rwa [Table.lookup_keep_eq_some, decide_eq_true_eq] at hlookup
  refine ⟨?_, ?_, ?_, herase.recorded, herase.holder, herase.held, ?_, herase.uncontrolled,
    herase.known, herase.amounts, nonneg_update h.nonneg le_rfl _⟩
  · intro found hused
    by_cases hfound : found = slot
    · subst hfound
      cases (update_self _ _ _).symm.trans hused
    · exact h.used _ ((update_of_ne hfound _ _).symm.trans hused)
  · intro number place hlookup
    obtain ⟨hold, hplace⟩ := hsent _ _ hlookup
    exact (update_of_ne hplace _ _).trans (h.aliased _ _ hold)
  · intro other found place hlookup hnone hretained
    obtain ⟨hother, hold⟩ := Table.lookup_of_erase hlookup
    obtain ⟨hused, hown, hbytes, halias⟩ := h.pending _ _ _ hold hnone hretained
    have hplace : place ≠ slot := fun heq => hothers _ _ hother hold hnone (heq ▸ hretained)
    rw [howner]
    exact ⟨(update_of_ne hplace _ _).trans hused, hown, (update_of_ne hplace _ _).trans hbytes,
      fun number hlookup => halias _ (hsent _ _ hlookup).1⟩
  · intro other found number place hlookup hnumber hretained halias
    obtain ⟨hold, hplace⟩ := hsent _ _ halias
    exact (update_of_ne hplace _ _).trans (h.written _ _ _ _
      (Table.lookup_of_erase hlookup).2 hnumber hretained hold)

omit h hkeeps

theorem reserved_release (h : ledger.Linked) (hused : ledger.inUse slot = true)
    (hlookup : ledger.calls.lookup call = some entry)
    (hheld : ledger.bytes slot + entry.pendingBytes = entry.windowBytes) (hother : other.Linked)
    (hinUse : other.inUse = Function.update ledger.inUse slot false)
    (hbytes : other.bytes = Function.update ledger.bytes slot 0)
    (hcalls : other.calls = ledger.calls.erase call) :
    ledger.reserved = entry.windowBytes + other.reserved := by
  have hback : ledger.inUse = update other.inUse slot true := by
    rw [hinUse, update_idem, ← hused, update_eq_self]
  have hfree : other.inUse slot = false := by rw [hinUse, update_self]
  have hsum := sum_liveSlots_insert hother h hfree hback fun found hfound => by
    rw [hbytes, update_of_ne hfound]
  rw [reserved, reserved, hsum, sum_pendingBytes_erase hlookup, hcalls, ← hheld]
  ring

end Release

section Record

variable {call slot : Nat} {entry : SendCall} {number : UInt32}

variable (h : ledger.Linked)
include h

/-- Nobody has numbered a packet while the mutex is free or with the retransmitter. -/
theorem Linked.unnumbered (hmutex : ∀ call, ledger.packetMu ≠ .sender call)
    {other : Nat} {found : SendCall} (hfound : ledger.calls.lookup other = some found)
    (hnumber : found.number.isSome = true) {P : Prop} : P :=
  absurd (h.recorded _ _ hfound hnumber) (hmutex _)

/-- A packet that is numbered, and recorded in the slot of its call if it has one. -/
theorem Linked.record (hlookup : ledger.calls.lookup call = some entry)
    (hphase : entry.number = none) (hmutex : ledger.packetMu = .free) {sent : Table UInt32 Nat}
    {bytes : Nat → Int}
    (hsent : ∀ key place, sent.lookup key = some place →
      entry.retained = some place ∨ ledger.sent.lookup key = some place)
    (hbytes : ∀ place, entry.retained ≠ some place → bytes place = ledger.bytes place)
    (hslot : ∀ place, entry.retained = some place → bytes place = entry.windowBytes) :
    Linked { ledger with
      sent
      bytes
      calls := ledger.calls.insert call { entry with number := some number }
      packetMu := .sender call } := by
  have hfree (call : Nat) : ledger.packetMu ≠ .sender call := by
    rw [hmutex]
    exact nofun
  exact
    { used := h.used
      aliased := by
        intro key place hfound
        rcases hsent key place hfound with hown | hold
        · exact (h.pending _ _ _ hlookup hphase hown).1
        · exact h.aliased _ _ hold
      pending := by
        intro other found place hfound hother hretained
        rcases Table.lookup_insert_cases hfound with ⟨-, rfl⟩ | ⟨hne, hold⟩
        · cases hother
        · obtain ⟨hused, howner, hzero, halias⟩ := h.pending _ _ _ hold hother hretained
          have hplace : entry.retained ≠ some place := fun heq =>
            hne (howner.symm.trans (h.pending _ _ _ hlookup hphase heq).2.1)
          exact ⟨hused, howner, (hbytes _ hplace).trans hzero, fun key hkey =>
            (hsent _ _ hkey).elim hplace (halias _)⟩
      recorded := by
        intro other found hfound hnumber
        rcases Table.lookup_insert_cases hfound with ⟨rfl, -⟩ | ⟨-, hold⟩
        · rfl
        · exact h.unnumbered hfree hold hnumber
      holder := by
        intro other found hheld hfound
        cases hheld
        rcases Table.lookup_insert_cases hfound with ⟨-, rfl⟩ | ⟨hne, -⟩
        · rfl
        · exact absurd rfl hne
      held := by
        rintro other hheld
        cases hheld
        exact h.known _ _ hlookup
      written := by
        intro other found key place hfound hnumber hretained _
        rcases Table.lookup_insert_cases hfound with ⟨-, rfl⟩ | ⟨-, hold⟩
        · exact hslot _ hretained
        · exact h.unnumbered hfree hold (isSome_of_eq_some hnumber)
      uncontrolled := Table.forall_lookup_insert (h.uncontrolled _ entry hlookup) h.uncontrolled
      known := Table.forall_lookup_insert (h.known _ _ hlookup) h.known
      amounts := Table.forall_lookup_insert (h.amounts _ entry hlookup) h.amounts
      nonneg := by
        intro place
        by_cases hplace : entry.retained = some place
        · exact (h.amounts _ _ hlookup).trans (hslot _ hplace).ge
        · exact (h.nonneg _).trans (hbytes _ hplace).ge }

theorem reserved_record (hlookup : ledger.calls.lookup call = some entry)
    (hphase : entry.number = none) (hslot : entry.retained = some slot) (hother : other.Linked)
    (hinUse : other.inUse = ledger.inUse)
    (hbytes : other.bytes = Function.update ledger.bytes slot entry.windowBytes)
    (hcalls : other.calls = ledger.calls.insert call { entry with number := some number }) :
    other.reserved = ledger.reserved := by
  obtain ⟨hused, -, hzero, -⟩ := h.pending _ _ _ hlookup hphase hslot
  have hlive := (mem_liveSlots h _).mpr hused
  have hbefore : ∑ found ∈ ledger.liveSlots, ledger.bytes found =
      0 + ∑ found ∈ ledger.liveSlots \ {slot}, ledger.bytes found := by
    rw [← sum_update_of_mem hlive, ← hzero, update_eq_self]
  rw [reserved, reserved, liveSlots_congr h hother hinUse, hbytes, sum_update_of_mem hlive,
    hbefore, hcalls, Table.sum_insert, sum_pendingBytes_erase hlookup, SendCall.pendingBytes,
    SendCall.pendingBytes, if_neg (by simp), if_pos hphase]
  ring

theorem Linked.retransmit {next : UInt32} {packetMu : PacketMutex}
    (hlookup : ledger.sent.lookup number = some slot) (hmutex : ledger.packetMu = .retransmitter)
    (hkeeps : ∀ call, packetMu ≠ .sender call) (sealed : Bool) (window : SendWindow) :
    Linked { ledger with
      sent := if sealed then ledger.sent.insert next slot else ledger.sent
      window
      packetMu } := by
  have hsent (key : UInt32) (place : Nat)
      (hfound : (if sealed then ledger.sent.insert next slot else ledger.sent).lookup key =
        some place) : ∃ old, ledger.sent.lookup old = some place := by
    split at hfound
    · rcases Table.lookup_insert_cases hfound with ⟨-, rfl⟩ | ⟨-, hold⟩
      · exact ⟨number, hlookup⟩
      · exact ⟨key, hold⟩
    · exact ⟨key, hfound⟩
  have hfree (call : Nat) : ledger.packetMu ≠ .sender call := by
    rw [hmutex]
    exact nofun
  refine ⟨h.used, ?_, ?_, fun call found hfound hnumber => h.unnumbered hfree hfound hnumber,
    fun call found hheld => absurd hheld (hkeeps _), fun call hheld => absurd hheld (hkeeps _),
    ?_, h.uncontrolled, h.known, h.amounts, h.nonneg⟩
  · intro key place hfound
    obtain ⟨old, hold⟩ := hsent _ _ hfound
    exact h.aliased _ _ hold
  · intro call found place hfound hphase hretained
    obtain ⟨hused, howner, hbytes, halias⟩ := h.pending _ _ _ hfound hphase hretained
    refine ⟨hused, howner, hbytes, fun key hkey => ?_⟩
    obtain ⟨old, hold⟩ := hsent _ _ hkey
    exact halias _ hold
  · exact fun call found key place hfound hnumber =>
      h.unnumbered hfree hfound (isSome_of_eq_some hnumber)

end Record

section Acknowledge

variable {acknowledged : List Nat}

def reservedExcept (ledger : SendLedger) (acknowledged : List Nat) : Int :=
  ∑ slot ∈ ledger.liveSlots.filter (· ∉ acknowledged), ledger.bytes slot +
    Table.sum SendCall.pendingBytes ledger.calls

theorem reservedExcept_nil (ledger : SendLedger) : ledger.reservedExcept [] = ledger.reserved := by
  simp [reservedExcept, reserved]

variable (h : ledger.Linked)
include h

theorem reservedExcept_nonneg (acknowledged : List Nat) : 0 ≤ ledger.reservedExcept acknowledged :=
  add_nonneg (sum_nonneg fun slot _ => h.nonneg slot) h.sum_nonneg

theorem reservedExcept_cons {slot : Nat} (hused : ledger.inUse slot = true)
    (hnew : slot ∉ acknowledged) :
    ledger.reservedExcept acknowledged =
      ledger.bytes slot + ledger.reservedExcept (slot :: acknowledged) := by
  have hlive : ledger.liveSlots.filter (· ∉ acknowledged) =
      insert slot (ledger.liveSlots.filter (· ∉ slot :: acknowledged)) := by
    ext found
    simp only [mem_filter, mem_insert, mem_liveSlots h, List.mem_cons, not_or]
    constructor
    · intro hfound
      by_cases heq : found = slot
      · exact Or.inl heq
      · exact Or.inr ⟨hfound.1, heq, hfound.2⟩
    · rintro (rfl | hfound)
      · exact ⟨hused, hnew⟩
      · exact ⟨hfound.1, hfound.2.2⟩
  have hnotMem : slot ∉ ledger.liveSlots.filter (· ∉ slot :: acknowledged) := by simp
  rw [reservedExcept, reservedExcept, hlive, sum_insert hnotMem, add_assoc]

/-- The slots of an acknowledgement are freed, with the numbers that lead to them. -/
theorem Linked.acknowledge {sent : Table UInt32 Nat}
    (haliased : ∀ slot ∈ acknowledged, ∃ number, ledger.sent.lookup number = some slot)
    (hsent : ∀ number slot, sent.lookup number = some slot ↔
      ledger.sent.lookup number = some slot ∧ slot ∉ acknowledged)
    (window : SendWindow) (credited : List Nat) :
    Linked { ledger with
      inUse := fun slot => ledger.inUse slot && decide (slot ∉ acknowledged)
      sent
      bytes := fun slot => if slot ∈ acknowledged then 0 else ledger.bytes slot
      window
      history := { ledger.history with credited } } := by
  have hstill {slot : Nat} (hused : ledger.inUse slot = true) (hnew : slot ∉ acknowledged) :
      (ledger.inUse slot && decide (slot ∉ acknowledged)) = true := by
    rw [Bool.and_eq_true, decide_eq_true_eq]
    exact ⟨hused, hnew⟩
  refine ⟨?_, ?_, ?_, h.recorded, h.holder, h.held, ?_, h.uncontrolled, h.known, h.amounts, ?_⟩
  · intro slot hused
    exact h.used _ ((Bool.and_eq_true _ _ ▸ hused).1)
  · intro number slot hlookup
    obtain ⟨hold, hnew⟩ := (hsent _ _).mp hlookup
    exact hstill (h.aliased _ _ hold) hnew
  · intro call entry slot hlookup hphase hretained
    obtain ⟨hused, howner, hbytes, halias⟩ := h.pending _ _ _ hlookup hphase hretained
    have hnew : slot ∉ acknowledged := by
      intro hmem
      obtain ⟨number, hnumber⟩ := haliased _ hmem
      exact halias _ hnumber
    refine ⟨hstill hused hnew, howner, ?_, fun number hnumber =>
      halias _ ((hsent _ _).mp hnumber).1⟩
    exact (if_neg hnew).trans hbytes
  · intro call entry number slot hlookup hnumber hretained halias
    obtain ⟨hold, hnew⟩ := (hsent _ _).mp halias
    exact (if_neg hnew).trans (h.written _ _ _ _ hlookup hnumber hretained hold)
  · intro slot
    dsimp only
    split
    · exact le_rfl
    · exact h.nonneg _

theorem reserved_acknowledge (hother : other.Linked)
    (hinUse : other.inUse = fun slot => ledger.inUse slot && decide (slot ∉ acknowledged))
    (hbytes : other.bytes = fun slot => if slot ∈ acknowledged then 0 else ledger.bytes slot)
    (hcalls : other.calls = ledger.calls) :
    other.reserved = ledger.reservedExcept acknowledged := by
  have hlive : other.liveSlots = ledger.liveSlots.filter (· ∉ acknowledged) := by
    ext slot
    rw [mem_liveSlots hother, mem_filter, mem_liveSlots h, hinUse, Bool.and_eq_true,
      decide_eq_true_eq]
  rw [reserved, hlive, hcalls]
  apply congrArg (· + _)
  apply sum_congr rfl
  intro slot hslot
  rw [hbytes]
  exact if_neg (mem_filter.mp hslot).2

end Acknowledge

end SendLedger

/-- A payload whose write returns an error is not acknowledged before the error is handled:
its packet number is still tracked. -/
def WindowSession.Unacknowledged (state : WindowSession) : WindowStep → Prop
  | .written call false => ∀ entry ∈ state.calls.lookup call, ∀ number ∈ entry.number,
      ∀ slot ∈ entry.retained, state.sent.lookup number = some slot
  | _ => True

-- The packet number is looked up, not searched for among all 32-bit numbers.
instance (state : WindowSession) : ∀ step, Decidable (state.Unacknowledged step)
  | .written call false =>
    @Option.decidableForallMem SendCall
      (fun entry => ∀ number ∈ entry.number, ∀ slot ∈ entry.retained,
        state.sent.lookup number = some slot)
      (fun entry => @Option.decidableForallMem UInt32
        (fun number => ∀ slot ∈ entry.retained, state.sent.lookup number = some slot)
        (fun _ => inferInstance) entry.number)
      (state.calls.lookup call)
  | .written _ true | .send _ _ _ | .interrupt _ | .transmit _ _ | .sendTo _ | .acknowledge _ _ _
  | .retransmitBegin | .retransmitTurn _ _ _ _ | .retransmitEnd | .maintainSentCapacity | .remove
  | .close => .isTrue trivial

structure Accounted (ledger : SendLedger) : Prop where
  linked : ledger.Linked
  balanced : Balanced ledger.window ledger.reserved

theorem Accounted.of_reserved {ledger : SendLedger} (hlinked : ledger.Linked) {reserved : Int}
    (hreserved : ledger.reserved = reserved) (hbalanced : Balanced ledger.window reserved) :
    Accounted ledger :=
  ⟨hlinked, hreserved ▸ hbalanced⟩

theorem Accounted.of_eq {ledger other : SendLedger} (h : Accounted ledger) (heq : other = ledger) :
    Accounted other :=
  heq ▸ h

section Sweep

variable {state : WindowSession} {ranges : List ACKRange} {random : UInt32 → Option UInt64}

theorem sweepPacket_balanced (h : state.ledger.Linked) {sweep : AckSweep}
    (hsweep : Balanced sweep.window (state.ledger.reservedExcept sweep.acknowledged))
    (number : UInt32) :
    Balanced (state.sweepPacket ranges random sweep number).window
      (state.ledger.reservedExcept (state.sweepPacket ranges random sweep number).acknowledged) := by
  unfold sweepPacket
  split
  · exact hsweep
  next slot hlookup =>
  split
  · exact hsweep
  next htaken =>
  simp only [not_or, Bool.not_eq_true', Bool.not_eq_false] at htaken
  obtain ⟨hused, hnew, -⟩ := htaken
  rw [reservedExcept_cons h hused hnew] at hsweep
  dsimp only
  split
  · exact hsweep.messageACKed (h.nonneg _) (reservedExcept_nonneg h _) _ _ _
  next hzero =>
  rw [not_not] at hzero
  have hbytes : state.ledger.bytes slot = 0 := hzero
  rwa [hbytes, zero_add] at hsweep

theorem sweep_balanced (h : Accounted state.ledger) (ranges : List ACKRange) (order : List UInt32)
    (random : UInt32 → Option UInt64) :
    Balanced (state.sweep ranges order random).window
      (state.ledger.reservedExcept (state.sweep ranges order random).acknowledged) := by
  have hstart : Balanced state.window (state.ledger.reservedExcept []) := by
    rw [reservedExcept_nil]
    exact h.balanced
  exact run_preserves (I := fun sweep : AckSweep =>
      Balanced sweep.window (state.ledger.reservedExcept sweep.acknowledged))
    (fun sweep number hsweep => sweepPacket_balanced h.linked hsweep _)
    (show Balanced (AckSweep.mk state.window [] state.history.credited).window _ from hstart) _

theorem sweep_aliased (ranges : List ACKRange) (order : List UInt32)
    (random : UInt32 → Option UInt64) :
    ∀ slot ∈ (state.sweep ranges order random).acknowledged,
      ∃ number, state.sent.lookup number = some slot := by
  intro slot hmem
  rw [sweep, mem_sweep_foldl] at hmem
  rcases hmem with hnil | ⟨number, -, hlookup, -⟩
  · cases hnil
  · exact ⟨number, hlookup⟩

end Sweep

section Step

variable {state : WindowSession} {step : WindowStep} {ledger : SendLedger}

variable (h : Accounted state.ledger)
include h

theorem Accounted.released {call slot : Nat} {entry : SendCall}
    {packetMu : PacketMutex} (hlookup : state.calls.lookup call = some entry)
    (hused : state.inUse slot = true)
    (hheld : state.ledger.bytes slot + entry.pendingBytes = entry.windowBytes)
    (hothers : ∀ other found, other ≠ call → state.calls.lookup other = some found →
      found.number = none → found.retained ≠ some slot)
    (hkeeps : state.packetMu.Keeps packetMu (some call)) (history : SendHistory)
    (howner : history.owner = state.history.owner) :
    Accounted { state.ledger with
      inUse := Function.update state.inUse slot false
      sent := state.sent.keep fun _ other => other ≠ slot
      bytes := Function.update state.ledger.bytes slot 0
      window := state.window.credit entry.windowBytes
      calls := state.calls.erase call
      packetMu
      history } := by
  have hlinked := h.linked.release hkeeps hothers (state.window.credit entry.windowBytes) history
    howner
  have hreserved := reserved_release h.linked hused hlookup hheld hlinked rfl rfl rfl
  have hbalanced := h.balanced
  rw [hreserved] at hbalanced
  exact ⟨hlinked, hbalanced.credit (h.linked.amounts _ _ hlookup) hlinked.reserved_nonneg⟩

theorem Accounted.erase {call : Nat} {entry : SendCall}
    {packetMu : PacketMutex} (hlookup : state.calls.lookup call = some entry)
    (hheld : entry.pendingBytes = 0) (hkeeps : state.packetMu.Keeps packetMu (some call))
    {window : SendWindow} (hwindow : Balanced window state.ledger.reserved) (history : SendHistory)
    (howner : history.owner = state.history.owner) :
    Accounted { state.ledger with calls := state.calls.erase call, packetMu, window, history } := by
  have hlinked := h.linked.erase hkeeps window history howner
  have hsum := sum_pendingBytes_erase hlookup
  rw [hheld, zero_add] at hsum
  exact .of_reserved hlinked (reserved_congr h.linked hlinked rfl rfl hsum.symm) hwindow

/-- The slot of a call that fails is its own: it has reserved it, or its packet still leads
to it. -/
theorem Accounted.failed {call slot : Nat} {entry : SendCall} (hstep : state.Unacknowledged step)
    (hlookup : state.calls.lookup call = some entry) (hslot : entry.retained = some slot)
    (hphase : entry.number = none ∨ step = .written call false) :
    state.inUse slot = true ∧
      state.ledger.bytes slot + entry.pendingBytes = entry.windowBytes ∧
      ∀ other found, other ≠ call → state.calls.lookup other = some found →
        found.number = none → found.retained ≠ some slot := by
  cases hnumber : entry.number with
  | none =>
    obtain ⟨hused, howner, hbytes, -⟩ := h.linked.pending _ _ _ hlookup hnumber hslot
    refine ⟨hused, ?_, fun other found hother hfound hpending hretained => ?_⟩
    · rw [hbytes, SendCall.pendingBytes, if_pos hnumber, zero_add]
    · obtain ⟨-, hfoundOwner, -⟩ := h.linked.pending _ _ _ hfound hpending hretained
      exact hother (hfoundOwner.symm.trans howner)
  | some number =>
    rcases hphase with hpending | rfl
    · cases hnumber.symm.trans hpending
    · have htracked := hstep _ hlookup _ hnumber _ hslot
      refine ⟨h.linked.aliased _ _ htracked, ?_,
        fun other found hother hfound hpending hretained => ?_⟩
      · rw [h.linked.written _ _ _ _ hlookup hnumber hslot htracked,
          SendCall.pendingBytes, if_neg (by simp [hnumber]), add_zero]
      · exact (h.linked.pending _ _ _ hfound hpending hretained).2.2.2 number htracked

theorem Accounted.recorded {call : Nat} {entry : SendCall}
    (hlookup : state.calls.lookup call = some entry) (hphase : entry.number = none)
    (hmutex : state.packetMu = .free) (number : UInt32) :
    Accounted { state.ledger with
      sent := match entry.retained with
        | none => state.sent
        | some slot => state.sent.insert number slot
      bytes := match entry.retained with
        | none => state.ledger.bytes
        | some slot => Function.update state.ledger.bytes slot entry.windowBytes
      calls := state.calls.insert call { entry with number := some number }
      packetMu := .sender call } := by
  rcases eq_none_or_eq_some entry.retained with hslot | ⟨slot, hslot⟩
  · have hlinked : SendLedger.Linked { state.ledger with
        calls := state.calls.insert call { entry with number := some number }
        packetMu := .sender call } :=
      h.linked.record hlookup hphase hmutex (fun _ _ => .inr) (fun _ _ => rfl) fun _ hplace =>
        nomatch hslot.symm.trans hplace
    have hsum := SendLedger.sum_pendingBytes_erase hlookup
    rw [SendCall.pendingBytes, h.linked.uncontrolled _ _ hlookup hslot, ite_self] at hsum
    have hcalls : Table.sum SendCall.pendingBytes
        (state.calls.insert call { entry with number := some number }) =
          Table.sum SendCall.pendingBytes state.calls := by
      rw [Table.sum_insert, hsum, SendCall.pendingBytes, if_neg (by simp), zero_add]
    have hreserved := SendLedger.reserved_congr h.linked hlinked rfl rfl hcalls
    refine (Accounted.of_reserved hlinked hreserved h.balanced).of_eq
      (SendLedger.ext rfl ?_ ?_ rfl rfl rfl rfl rfl rfl rfl)
    · rw [hslot]
      rfl
    · rw [hslot]
  · have hlinked : SendLedger.Linked { state.ledger with
        sent := state.sent.insert number slot
        bytes := update state.ledger.bytes slot entry.windowBytes
        calls := state.calls.insert call { entry with number := some number }
        packetMu := .sender call } := by
      refine h.linked.record hlookup hphase hmutex ?_ ?_ ?_
      · intro key place hfound
        rcases Table.lookup_insert_cases hfound with ⟨-, rfl⟩ | ⟨-, hold⟩
        · exact .inl hslot
        · exact .inr hold
      · intro place hplace
        exact update_of_ne (fun heq => hplace (hslot.trans (congrArg some heq.symm))) _ _
      · intro place hplace
        cases hslot.symm.trans hplace
        exact update_self _ _ _
    have hreserved := SendLedger.reserved_record h.linked hlookup hphase hslot hlinked rfl rfl rfl
    refine (Accounted.of_reserved hlinked hreserved h.balanced).of_eq
      (SendLedger.ext rfl ?_ ?_ rfl rfl rfl rfl rfl rfl rfl)
    · rw [hslot]
    · rw [hslot]

theorem Accounted.moves (hstep : state.Unacknowledged step)
    (hmoves : Moves state step ledger) : Accounted ledger := by
  cases hmoves with
  | idle step packetMu keeps => exact ⟨h.linked.idle keeps state.window, h.balanced⟩
  | shrunk count free =>
    have hlinked := h.linked.shrink free
    exact .of_reserved hlinked (reserved_congr h.linked hlinked rfl rfl rfl) h.balanced
  | retained payload options ipv6 slot grown packetSize retain room positive =>
    obtain ⟨-, hfree, hmem, added, chunks, rfl⟩ := retainPayload_spec retain
    have hamount : 0 ≤ if options.congestionControlled = true then packetSize else 0 := by
      split
      · exact positive.le
      · exact le_rfl
    have hroom : (if options.congestionControlled = true then packetSize else 0) ≤
        state.window.sendWindowRemaining := by
      split
      next hcontrolled =>
        rw [SendWindow.capacityAvailable, decide_eq_true_eq, hcontrolled] at room
        exact room.resolve_left (by decide)
      · exact h.balanced.nonneg
    have hlinked := @SendLedger.Linked.retain state.ledger slot ⟨payload, options, some slot,
        if options.congestionControlled then packetSize else 0, packetSize, none⟩
      _ (state.nextSlot + added) (state.window.reserve
        (if options.congestionControlled = true then packetSize else 0))
      h.linked hfree hmem (List.subset_append_left _ _) rfl rfl hamount
    exact .of_reserved hlinked (reserved_retain h.linked hfree rfl hlinked rfl rfl rfl)
      (h.balanced.reserve hamount hroom)
  | unretained payload options ipv6 packetSize unreliable =>
    have hlinked := @SendLedger.Linked.unretained state.ledger
      ⟨payload, options, none, 0, packetSize, none⟩ h.linked rfl rfl rfl
    refine .of_reserved hlinked (reserved_congr h.linked hlinked rfl rfl ?_) h.balanced
    exact (sum_pendingBytes_insert h.linked _).trans (zero_add _)
  | released step call entry slot packetMu lookup slot_eq used phase keeps =>
    obtain ⟨-, hheld, hothers⟩ := h.failed hstep lookup slot_eq phase
    exact h.released lookup used hheld hothers keeps _ rfl
  | dropped step call entry slot packetMu lookup slot_eq used phase keeps =>
    obtain ⟨hused, -⟩ := h.failed hstep lookup slot_eq phase
    cases used.symm.trans hused
  | ended step call entry packetMu lookup slot_eq keeps =>
    have hzero := h.linked.uncontrolled call _ lookup slot_eq
    refine h.erase lookup ?_ keeps ?_ _ rfl
    · rw [SendCall.pendingBytes, hzero, ite_self]
    · rw [hzero]
      exact h.balanced
  | recorded call cancelled entry number lookup phase mutex => exact h.recorded lookup phase mutex _
  | finished call entry packetsTransmitted lookup mutex =>
    refine h.erase lookup ?_ ?_ (h.balanced.transmitted _) _ rfl
    · have hnumber := h.linked.holder _ entry mutex lookup
      rw [SendCall.pendingBytes, if_neg (isSome_iff_ne_none.mp hnumber)]
    · refine ⟨fun other hother hheld => ?_, nofun⟩
      rw [mutex, PacketMutex.sender.injEq] at hheld
      exact absurd (congrArg some hheld) hother
  | acknowledged ranges order random sent lookup =>
    have hlinked := h.linked.acknowledge (sweep_aliased _ _ _) lookup
      (state.sweep ranges order random).window (state.sweep ranges order random).credited
    exact .of_reserved hlinked (reserved_acknowledge h.linked hlinked rfl rfl rfl)
      (sweep_balanced h _ _ _)
  | retransmitted step number next slot sealed fast elapsed packetSize packetMu lookup mutex keeps =>
    exact ⟨h.linked.retransmit lookup mutex keeps _ _,
      h.balanced.noteCongestion h.linked.reserved_nonneg _ _ _⟩

end Step

section Main

variable {sendID : UInt64} {largeMTU : Int} {steps : List WindowStep}

theorem accounted_start (sendID : UInt64) (largeMTU : Int) :
    Accounted (WindowSession.start sendID largeMTU).ledger where
  linked := by
    constructor
    case used => exact fun _ hused => absurd hused Bool.false_ne_true
    case aliased => exact fun _ _ hlookup => absurd hlookup (some_ne_none _).symm
    case nonneg => exact fun _ => le_rfl
    all_goals simp [ledger, start]
  balanced := Balanced.initReliability largeMTU

theorem accounted_after (h : Along WindowSession.step WindowSession.Unacknowledged
    (.start sendID largeMTU) steps) :
    Accounted (WindowSession.after sendID largeMTU steps).ledger := by
  apply run_invariant (I := fun state => Accounted (ledger state)) _
    (accounted_start _ _) h
  intro state step hstep haccounted
  exact haccounted.moves hstep (state.step_moves _)

/-- The window never leaks: with the bytes that are out it is whole, and a session with
nothing out can send a packet of full size. -/
theorem send_window_never_leaks (h : Along WindowSession.step WindowSession.Unacknowledged
    (.start sendID largeMTU) steps) :
    let session := WindowSession.after sendID largeMTU steps
    0 ≤ session.window.sendWindowRemaining ∧
      session.window.sendWindowRemaining ≤ session.window.sendWindowBytes ∧
      1500 ≤ session.window.sendWindowBytes ∧ session.window.sendWindowBytes ≤ 1024 * 1024 ∧
      session.window.sendWindowBytes ≤
        session.window.sendWindowRemaining + session.ledger.reserved ∧
      (session.ledger.reserved = 0 → ∀ congestionControlled packetSize,
        packetSize ≤ ssu2MaximumNetworkMTU →
          session.window.capacityAvailable congestionControlled packetSize = true) := by
  obtain ⟨hnonneg, hwithin, hlow, hhigh, hcovered, -, -⟩ := (accounted_after h).balanced
  refine ⟨hnonneg, hwithin, hlow, hhigh, hcovered, fun hnothing congestionControlled packetSize hsize =>
    decide_eq_true (Or.inr ?_)⟩
  rw [hnothing, add_zero] at hcovered
  exact hsize.trans (hlow.trans hcovered)

def threeSends : List WindowStep :=
  [.send (List.replicate 8 1) .data false, .transmit 0 false, .written 0 false,
    .send (List.replicate 900 2) .data true, .transmit 1 false, .written 1 true,
    .acknowledge [⟨2, 2⟩] [2] fun _ => none, .send (List.replicate 900 3) .data false,
    .transmit 2 false, .written 2 true, .retransmitBegin, .retransmitTurn 3 true true true,
    .retransmitEnd]

theorem send_window_never_leaks_three_sends :
    (WindowSession.after 7 1500 threeSends).ledger.reserved = 960 ∧
      (WindowSession.after 7 1500 threeSends).window.sendWindowBytes ≤
        (WindowSession.after 7 1500 threeSends).window.sendWindowRemaining + 960 := by
  have hreserved : (after 7 1500 threeSends).ledger.reserved = 960 := by decide +kernel
  have hcovered := (@send_window_never_leaks 7 1500 threeSends (by decide +kernel)).2.2.2.2.1
  rw [hreserved] at hcovered
  exact ⟨hreserved, hcovered⟩

end Main

end Ivnp.Ssu2
