import Ivnp.Lib.Fallible
import Ivnp.Tunnel.EndpointFrame

/-!
The two tables of an endpoint over whole runs. The parts of a message are in the reassembler, and
the delivery instructions of its first fragment in a table with times, an expiry and an eviction of
its own. What is delivered never mixes two first fragments. But the instructions can be gone while
the first part is still there, and the message is lost when it completes.
-/

namespace Ivnp.Tunnel

open Ivnp.Lib Endpoint

def Reassembler.expire (reasm : Reassembler) (cutoff : UInt64) : Reassembler :=
  { reasm with entries := reasm.entries.keep fun _ entry => ¬entry.created ≤ cutoff }

def Endpoint.expire (endpoint : Endpoint) (cutoff : UInt64) : Endpoint :=
  { endpoint with
    reasm := endpoint.reasm.expire cutoff
    metas := endpoint.metas.keep fun _ item => ¬item.created ≤ cutoff }

/-- The key that a new one takes the place of: the oldest of a full table. -/
def evicted {V : Type} (created : V → UInt64) (limit : Nat) (table : Table UInt32 V)
    (key : UInt32) : Option UInt32 :=
  if table.lookup key = none ∧ table.entries.length = limit then some (oldestID created table)
  else none

theorem lookup_insert_evicting {V : Type} (created : V → UInt64) (limit : Nat)
    {table : Table UInt32 V} {key other : UInt32} (value : V) (hkey : table.lookup key = none)
    (hother : other ≠ key) :
    ((if table.entries.length = limit then table.erase (oldestID created table)
      else table).insert key value).lookup other =
        if evicted created limit table key = some other then none else table.lookup other := by
  have herase := @AList.lookup_erase_ne UInt32 (fun _ => V) _ other (oldestID created table) table
  rw [AList.lookup_insert_ne hother]
  grind [evicted, AList.lookup_erase]

section FirstPart

def Partial.firstPart (entry : Partial) : Option Bytes :=
  if entry.seen.getLsbD 0 then some (entry.parts 0) else none

theorem Partial.firstPart_store (entry : Partial) {fragment : Fragment}
    (hnumber : fragment.number.toNat < 64) :
    (entry.store fragment).firstPart =
      if fragment.number = 0 then some fragment.data else entry.firstPart := by
  have hzero : 0 = fragment.number.toNat ↔ fragment.number = 0 := by
    rw [eq_comm, ← UInt8.toNat_inj, UInt8.toNat_zero]
  simp only [firstPart, store, getLsbD_or_bit _ hnumber, Function.update_apply, hzero]
  by_cases h : fragment.number = 0 <;> simp [h]

/-- A complete message begins with its first part. -/
theorem Partial.firstPart_of_complete {entry : Partial} (h : entry.complete = true) :
    ∃ head, entry.firstPart = some head ∧ head <+: entry.message := by
  rw [complete, decide_eq_true_eq] at h
  have hbit := congrArg (BitVec.getLsbD · 0) h.2
  have hmask : entry.requiredMask.getLsbD 0 = true := by
    rw [requiredMask, BitVec.getLsbD_ushiftRight, BitVec.getLsbD_allOnes, decide_eq_true_eq]
    omega
  simp only [BitVec.getLsbD_and, hmask, Bool.and_true] at hbit
  refine ⟨entry.parts 0, if_pos hbit, ?_⟩
  rw [message, List.range_succ_eq_map]
  exact List.prefix_append _ _

namespace Reassembler

/-- `Add` takes no notice of the fragment. -/
abbrev Refuses (fragment : Fragment) : Prop := fragment.data.length = 0 ∨ fragment.number > 63

def firstPart (reasm : Reassembler) (messageID : UInt32) : Option Bytes :=
  (reasm.entries.lookup messageID).bind Partial.firstPart

def firstWith (reasm : Reassembler) (fragment : Fragment) : Option Bytes :=
  if ¬Refuses fragment ∧ fragment.number = 0 then some fragment.data
  else reasm.firstPart fragment.messageID

/-- The message whose entry makes room for that of the fragment. -/
def dropped (reasm : Reassembler) (fragment : Fragment) : Option UInt32 :=
  if Refuses fragment then none
  else evicted Partial.created reasm.maxEntries reasm.entries fragment.messageID

/-- What `Add` does to the first part of its message, and what it returns with it. -/
structure Carries (first : Option Bytes) (messageID : UInt32)
    (result : Reassembler × Except TunnelError (Option Bytes)) : Prop where
  own : result.1.firstPart messageID = none ∨ result.1.firstPart messageID = first
  done : ∀ message, result.2 = .ok (some message) → result.1.firstPart messageID = none ∧
    ∃ head, first = some head ∧ head <+: message

variable {reasm : Reassembler} {fragment : Fragment}

theorem firstPart_remove (reasm : Reassembler) (messageID : UInt32) :
    (reasm.remove messageID).firstPart messageID = none := by
  simp [firstPart, remove, AList.lookup_erase]

theorem finish_carries (messageID : UInt32) (entry : Partial) :
    Carries entry.firstPart messageID (reasm.finish messageID entry) := by
  rw [finish]
  split
  next hcomplete =>
    refine ⟨.inl (firstPart_remove _ _), ?_⟩
    rintro message ⟨⟩
    exact ⟨firstPart_remove _ _, Partial.firstPart_of_complete hcomplete⟩
  · exact ⟨.inr (by simp [firstPart]), by rintro _ ⟨⟩⟩

theorem addTo_carries {entry : Partial} (hrefuses : ¬Refuses fragment)
    (hentry : reasm.entries.lookup fragment.messageID = some entry) :
    Carries (reasm.firstWith fragment) fragment.messageID (reasm.addTo entry fragment) := by
  have hnumber : fragment.number.toNat < 64 := by
    have hle := (not_or.mp hrefuses).2
    exact Nat.lt_succ_of_le (Nat.le_of_not_lt hle)
  have hfirst : reasm.firstWith fragment =
      if fragment.number = 0 then some fragment.data else entry.firstPart := by
    simp [firstWith, hrefuses, firstPart, hentry]
  have hrefused (error : TunnelError) : Carries (reasm.firstWith fragment) fragment.messageID
      (reasm.remove fragment.messageID, .error error) := ⟨.inl (firstPart_remove _ _), nofun⟩
  have hstored (next : Partial) (hnext : next.firstPart = (entry.store fragment).firstPart) :
      Carries (reasm.firstWith fragment) fragment.messageID (reasm.finish fragment.messageID next) := by
    rw [hfirst, ← entry.firstPart_store hnumber, ← hnext]
    exact finish_carries _ _
  unfold addTo
  dsimp only
  split
  · exact hrefused _
  split
  next hseen =>
    split
    · exact hrefused _
    next hsame =>
    -- the part is there already, with the same bytes
    have hheld : reasm.firstPart fragment.messageID = entry.firstPart := by simp [firstPart, hentry]
    refine ⟨.inr ?_, nofun⟩
    rw [hfirst, hheld]
    split
    next hzero =>
      rw [and_bit_ne_zero _ hnumber, hzero, UInt8.toNat_zero] at hseen
      rw [Partial.firstPart, if_pos hseen, ← not_not.mp (not_or.mp hsame).2, hzero]
      rfl
    · rfl
  split
  · exact hrefused _
  split
  · split
    · exact hrefused _
    split
    · exact hrefused _
    · exact hstored _ rfl
  · exact hstored _ rfl

theorem add_carries (reasm : Reassembler) (fragment : Fragment) (nowMillis : UInt64) :
    Carries (reasm.firstWith fragment) fragment.messageID (reasm.add fragment nowMillis) := by
  unfold add
  split
  next hrefuses => exact ⟨.inr (if_neg fun h => h.1 hrefuses).symm, nofun⟩
  next hrefuses =>
  split
  next entry hentry => exact addTo_carries hrefuses hentry
  next hnone =>
  have hentry : (reasm.insertNew fragment.messageID nowMillis).entries.lookup
      fragment.messageID = some (Partial.new nowMillis) := AList.lookup_insert _
  have hfirst : (reasm.insertNew fragment.messageID nowMillis).firstWith fragment =
      reasm.firstWith fragment := by
    simp [firstWith, firstPart, hentry, hnone, Partial.firstPart, Partial.new]
  exact hfirst ▸ addTo_carries hrefuses hentry

theorem firstPart_add_other (reasm : Reassembler) (fragment : Fragment) (nowMillis : UInt64)
    {other : UInt32} (hother : other ≠ fragment.messageID) :
    (reasm.add fragment nowMillis).1.firstPart other =
      if reasm.dropped fragment = some other then none else reasm.firstPart other := by
  have hframe (base : Reassembler) (entry : Partial) : (base.addTo entry fragment).1.firstPart other =
      (base.entries.lookup other).bind Partial.firstPart :=
    congrArg (Option.bind · Partial.firstPart) ((addTo_frame _ _ _).lookup other hother)
  unfold add dropped
  split
  · rfl
  split
  next entry hentry =>
    rw [hframe, evicted, hentry]
    rfl
  next hnone =>
  have hinsert : (reasm.insertNew fragment.messageID nowMillis).entries =
      (if reasm.entries.entries.length = reasm.maxEntries
        then reasm.entries.erase (oldestID Partial.created reasm.entries)
        else reasm.entries).insert fragment.messageID (Partial.new nowMillis) := by
    unfold insertNew
    split <;> rfl
  rw [hframe, hinsert, lookup_insert_evicting _ _ _ hnone hother]
  split <;> rfl

theorem firstPart_expire_eq_some {cutoff : UInt64} {messageID : UInt32} {head : Bytes} :
    (reasm.expire cutoff).firstPart messageID = some head ↔
      ∃ entry, reasm.entries.lookup messageID = some entry ∧ ¬entry.created ≤ cutoff ∧
        entry.firstPart = some head := by
  simp [firstPart, expire, Option.bind_eq_some_iff, and_assoc]

end Reassembler

end FirstPart

section Turn

def Block.part (block : Block) : Fragment :=
  if block.followOn then ⟨block.messageID, block.fragment, block.last, block.data⟩
  else ⟨block.messageID, 0, false, block.data⟩

def Block.Alike (block other : Block) : Prop :=
  block.delivery = other.delivery ∧ block.gateway = other.gateway ∧ block.tunnelID = other.tunnelID

@[simp] theorem messageID_part (block : Block) : block.part.messageID = block.messageID := by
  unfold Block.part
  split <;> rfl

namespace Endpoint

/-- The block has a part that is added: it is a follow-on block, or a first fragment that does not
contradict the instructions held for its message. -/
def Accepts (endpoint : Endpoint) (block : Block) : Prop :=
  if block.followOn then block.fragment ≠ 0
  else block.last = false ∧
    ∀ prior, endpoint.metas.lookup block.messageID = some prior → prior.block.Alike block

/-- The message whose instructions make room for those of a first fragment. -/
def forgotten (endpoint : Endpoint) (block : Block) : Option UInt32 :=
  evicted DeliveryMeta.created endpoint.maxMeta endpoint.metas block.messageID

/-- The instructions held when the part of the block is added. -/
def Remembers (endpoint : Endpoint) (block : Block) (metas : Table UInt32 DeliveryMeta) : Prop :=
  if block.followOn then metas = endpoint.metas
  else
    (∃ found, metas.lookup block.messageID = some found ∧ found.block.Alike block) ∧
      ∀ other ≠ block.messageID, metas.lookup other =
        if endpoint.forgotten block = some other then none else endpoint.metas.lookup other

variable {endpoint : Endpoint} {block : Block} {out : Nat} {nowMillis : UInt64}
  {delivered : List Block}

theorem remember_cases (hfollow : block.followOn = false) (nowMillis : UInt64) :
    (∃ prior, endpoint.metas.lookup block.messageID = some prior ∧ ¬prior.block.Alike block) ∧
        endpoint.remember block nowMillis = .error .fragment ∨
      (∀ prior, endpoint.metas.lookup block.messageID = some prior → prior.block.Alike block) ∧
        ∃ metas, endpoint.remember block nowMillis = .ok { endpoint with metas } ∧
          endpoint.Remembers block metas := by
  unfold remember
  split
  next prior hprior =>
    split
    next hdiffers => exact .inl ⟨⟨prior, hprior, by simp only [Block.Alike]; tauto⟩, rfl⟩
    next hsame =>
    have halike : prior.block.Alike block := by tauto
    exact .inr ⟨by simp [hprior, halike], _, rfl, by
      simp [Remembers, hfollow, hprior, halike, forgotten, evicted]⟩
  next hnone =>
    refine .inr ⟨by simp [hnone], _, rfl, ?_⟩
    rw [Remembers, hfollow]
    exact ⟨⟨_, AList.lookup_insert _, rfl, rfl, rfl⟩,
      fun other hother => lookup_insert_evicting _ _ _ hnone hother⟩

/-- What a block can do: at most it is put out as a whole; or its part is added, and the message is
put out if that completes it. -/
inductive Turn (endpoint : Endpoint) (out : Nat) (nowMillis : UInt64) (delivered : List Block)
    (block : Block) : Parsed → Prop
  | keeps (new : List Block) (error : Option TunnelError) (hrefused : ¬endpoint.Accepts block)
      (hnew : ∀ other ∈ new, other = block ∧ block.fragmented = false) :
      Turn endpoint out nowMillis delivered block ⟨endpoint, delivered ++ new, error⟩
  | adds (metas : Table UInt32 DeliveryMeta) (error : Option TunnelError)
      (haccepts : endpoint.Accepts block) (hmetas : endpoint.Remembers block metas)
      (hlost : ∀ message, (endpoint.reasm.add block.part nowMillis).2 = .ok (some message) →
        delivered.length = out ∨ metas.lookup block.messageID = none) :
      Turn endpoint out nowMillis delivered block
        ⟨{ endpoint with reasm := (endpoint.reasm.add block.part nowMillis).1, metas }, delivered,
          error⟩
  | delivers (metas : Table UInt32 DeliveryMeta) (found : DeliveryMeta) (message : Bytes)
      (haccepts : endpoint.Accepts block) (hmetas : endpoint.Remembers block metas)
      (hfound : metas.lookup block.messageID = some found)
      (hdone : (endpoint.reasm.add block.part nowMillis).2 = .ok (some message)) :
      Turn endpoint out nowMillis delivered block
        ⟨{ endpoint with
            reasm := (endpoint.reasm.add block.part nowMillis).1
            metas := metas.erase block.messageID },
          delivered ++ [{ found.block with data := message, last := true }], none⟩

/-- The last part of `appendFragmentedBlockLocked`, which both kinds of fragments share. -/
theorem turn_add {metas : Table UInt32 DeliveryMeta} (haccepts : endpoint.Accepts block)
    (hmetas : endpoint.Remembers block metas) :
    let next := { endpoint with reasm := (endpoint.reasm.add block.part nowMillis).1, metas }
    Turn endpoint out nowMillis delivered block
      (match (endpoint.reasm.add block.part nowMillis).2 with
        | .error error => ⟨next, delivered, some error⟩
        | .ok none => ⟨next, delivered, none⟩
        | .ok (some message) =>
          match metas.lookup block.messageID with
          | none => ⟨next, delivered, some .fragment⟩
          | some prior => next.deliver out delivered block.messageID prior.block message) := by
  intro next
  have hadds (error : Option TunnelError) (hlost) :
      Turn endpoint out nowMillis delivered block ⟨next, delivered, error⟩ :=
    .adds metas error haccepts hmetas hlost
  split
  next herror => exact hadds _ fun _ hdone => by cases herror.symm.trans hdone
  next hnone => exact hadds _ fun _ hdone => by cases hnone.symm.trans hdone
  next message hdone =>
    split
    next hlost => exact hadds _ fun _ _ => .inr hlost
    next found hfound =>
    unfold deliver
    split
    next hfull => exact hadds _ fun _ _ => .inl hfull
    · exact .delivers metas found message haccepts hmetas hfound hdone

theorem turn (endpoint : Endpoint) (out : Nat) (nowMillis : UInt64) (delivered : List Block)
    (block : Block) : Turn endpoint out nowMillis delivered block
      (endpoint.appendFragmentedBlock out nowMillis delivered block) := by
  have hkeeps (error : Option TunnelError) (h : ¬endpoint.Accepts block) :
      Turn endpoint out nowMillis delivered block ⟨endpoint, delivered, error⟩ := by
    simpa using Turn.keeps [] error h nofun
  unfold appendFragmentedBlock
  cases hfollow : block.followOn with
  | true =>
    have hpart : block.part = ⟨block.messageID, block.fragment, block.last, block.data⟩ :=
      if_pos hfollow
    simp only [Bool.not_true, Bool.false_eq_true, false_and, if_false, if_true, appendFollowOn,
      ← hpart]
    split
    next hzero => exact hkeeps _ (by simp [Accepts, hfollow, hzero])
    next hzero => exact turn_add (by simp [Accepts, hfollow, hzero]) (by simp [Remembers, hfollow])
  | false =>
    cases hlast : block.last with
    | true =>
      have hrefused : ¬endpoint.Accepts block := by simp [Accepts, hfollow, hlast]
      simp only [Bool.not_false, and_self, if_true]
      split
      · exact hkeeps _ hrefused
      · exact .keeps [block] _ hrefused (by simp [Block.fragmented, hfollow, hlast])
    | false =>
      have hpart : block.part = ⟨block.messageID, 0, false, block.data⟩ := by simp [Block.part, hfollow]
      simp only [Bool.false_eq_true, and_false, if_false, appendFirst]
      rcases remember_cases hfollow nowMillis with ⟨⟨prior, hprior, hdiffers⟩, hremember⟩ |
        ⟨halike, metas, hremember, hmetas⟩
      · rw [hremember]
        exact hkeeps _ (by simpa [Accepts, hfollow, hlast, hprior] using hdiffers)
      · have hturn := @turn_add endpoint block out nowMillis delivered metas
          (by simpa [Accepts, hfollow, hlast] using halike) hmetas
        simp only [Remembers, hfollow, Bool.false_eq_true, if_false] at hmetas
        obtain ⟨⟨found, hfound, -⟩, -⟩ := hmetas
        simp only [hfound] at hturn
        simp only [hremember, ← hpart, hfound, Option.getD_some]
        exact hturn

end Endpoint

end Turn

section Runs

def Opened (received : List Block) (messageID : UInt32) (instructions : Block) (head : Bytes) : Prop :=
  ∃ first ∈ received, first.followOn = false ∧ first.last = false ∧ first.messageID = messageID ∧
    instructions.Alike first ∧ first.data = head

namespace Endpoint

variable {endpoint : Endpoint} {block : Block} {out : Nat} {nowMillis : UInt64}
  {delivered received : List Block}

theorem firstWith_part_of_followOn (hfollow : block.followOn = true)
    (haccepts : endpoint.Accepts block) :
    endpoint.reasm.firstWith block.part = endpoint.reasm.firstPart block.messageID := by
  simp only [Accepts, hfollow, if_true] at haccepts
  simp [Reassembler.firstWith, Block.part, hfollow, haccepts]

theorem firstWith_part_of_first (hfollow : block.followOn = false) (hdata : block.data ≠ []) :
    endpoint.reasm.firstWith block.part = some block.data := by
  simp [Reassembler.firstWith, Block.part, hfollow, hdata, Reassembler.Refuses]

/-- What a turn does to the first parts, in terms of the block. -/
theorem firstPart_add (haccepts : endpoint.Accepts block) (nowMillis : UInt64) :
    let first := (endpoint.reasm.add block.part nowMillis).1.firstPart
    (block.followOn = true → first block.messageID = none ∨
        first block.messageID = endpoint.reasm.firstPart block.messageID) ∧
      (block.followOn = false → block.data ≠ [] → first block.messageID = none ∨
        first block.messageID = some block.data) ∧
      ∀ other ≠ block.messageID, first other =
        if endpoint.reasm.dropped block.part = some other then none
        else endpoint.reasm.firstPart other := by
  have hown := (endpoint.reasm.add_carries block.part nowMillis).own
  rw [messageID_part] at hown
  refine ⟨fun hfollow => ?_, fun hfollow hdata => ?_, fun other hother => ?_⟩
  · rwa [firstWith_part_of_followOn hfollow haccepts] at hown
  · rwa [firstWith_part_of_first hfollow hdata] at hown
  · exact endpoint.reasm.firstPart_add_other block.part _ (by simpa using hother)

def Agrees (endpoint : Endpoint) : Prop :=
  ∀ messageID, endpoint.reasm.firstPart messageID ≠ none → endpoint.metas.lookup messageID ≠ none

def Delivers (endpoint : Endpoint) : Prop :=
  ∀ out nowMillis delivered block message, delivered.length ≠ out → endpoint.Accepts block →
    (endpoint.reasm.add block.part nowMillis).2 = .ok (some message) →
      ∃ found : DeliveryMeta,
        (endpoint.appendFragmentedBlock out nowMillis delivered block).delivered =
          delivered ++ [{ found.block with data := message, last := true }]

theorem Agrees.delivers (h : endpoint.Agrees) : endpoint.Delivers := by
  intro out nowMillis delivered block message hroom haccepts hdone
  have hturn := endpoint.turn out nowMillis delivered block
  generalize endpoint.appendFragmentedBlock out nowMillis delivered block = result at hturn ⊢
  obtain ⟨-, head, hhead, -⟩ := (endpoint.reasm.add_carries block.part _).done message hdone
  cases hturn with
  | keeps _ _ hrefused => exact absurd haccepts hrefused
  | delivers _ found other _ _ _ hother =>
    cases hdone.symm.trans hother
    exact ⟨found, rfl⟩
  | adds metas _ _ hmetas hlost =>
    cases hfollow : block.followOn with
    | true =>
      rw [firstWith_part_of_followOn hfollow haccepts] at hhead
      grind [Agrees, Remembers]
    | false => grind [Remembers]

/-- A first fragment makes room for its instructions only where it makes room for its part too. -/
def KeepsFirst (endpoint : Endpoint) (block : Block) : Prop :=
  block.followOn = false → block.last = false → ∀ other, endpoint.forgotten block = some other →
    endpoint.reasm.firstPart other ≠ none → endpoint.reasm.dropped block.part = some other

theorem Agrees.append_iff (h : endpoint.Agrees) :
    (endpoint.appendFragmentedBlock out nowMillis delivered block).endpoint.Agrees ↔
      endpoint.KeepsFirst block := by
  have hturn := endpoint.turn out nowMillis delivered block
  generalize endpoint.appendFragmentedBlock out nowMillis delivered block = result at hturn ⊢
  have hparts (haccepts : endpoint.Accepts block) := firstPart_add haccepts nowMillis
  cases hturn with
  | keeps _ _ hrefused => grind [KeepsFirst, Accepts, forgotten, evicted]
  | adds metas _ haccepts hmetas => grind [Agrees, KeepsFirst, Accepts, Remembers, forgotten, evicted]
  | delivers metas _ message haccepts hmetas _ hdone =>
    have hgone := ((endpoint.reasm.add_carries block.part _).done message hdone).1
    have herase (other : UInt32) (hother : other ≠ block.messageID) :=
      @AList.lookup_erase_ne _ (fun _ => DeliveryMeta) _ other block.messageID metas hother
    grind [Agrees, KeepsFirst, Accepts, Remembers, forgotten, evicted, messageID_part]

/-- Instructions expire only with the first part they belong to. -/
def KeepsLiving (endpoint : Endpoint) (cutoff : UInt64) : Prop :=
  ∀ messageID entry found, endpoint.reasm.entries.lookup messageID = some entry →
    entry.firstPart ≠ none → endpoint.metas.lookup messageID = some found →
      found.created ≤ cutoff → entry.created ≤ cutoff

theorem Agrees.expire_iff (h : endpoint.Agrees) {cutoff : UInt64} :
    (endpoint.expire cutoff).Agrees ↔ endpoint.KeepsLiving cutoff := by
  have hheld (messageID : UInt32) (entry : Partial)
      (hentry : endpoint.reasm.entries.lookup messageID = some entry) (hfirst : entry.firstPart ≠ none) :
      ∃ found, endpoint.metas.lookup messageID = some found :=
    Option.ne_none_iff_exists'.mp (h _ (by simpa [Reassembler.firstPart, hentry] using hfirst))
  simp only [Agrees, KeepsLiving, Option.ne_none_iff_exists', expire, Table.lookup_keep_eq_some,
    Reassembler.firstPart_expire_eq_some, decide_eq_true_eq]
  constructor
  · rintro hnext messageID entry found hentry ⟨head, hhead⟩ hfound hold
    by_contra hyoung
    obtain ⟨kept, hkept, hlater⟩ := hnext _ ⟨head, entry, hentry, hyoung, hhead⟩
    cases hkept.symm.trans hfound
    exact hlater hold
  · rintro hkeeps messageID ⟨head, entry, hentry, hyoung, hhead⟩
    obtain ⟨found, hfound⟩ := hheld _ _ hentry (by simp [hhead])
    exact ⟨found, hfound, fun hold => hyoung (hkeeps _ _ _ hentry ⟨head, hhead⟩ hfound hold)⟩

/-- Every first part with instructions goes back to one first fragment. -/
def Traced (received : List Block) (endpoint : Endpoint) : Prop :=
  ∀ messageID head found, endpoint.reasm.firstPart messageID = some head →
    endpoint.metas.lookup messageID = some found → Opened received messageID found.block head

/-- The block is a whole one, or has its instructions and the beginning of its data from one first
fragment. -/
def Genuine (received : List Block) (block : Block) : Prop :=
  block ∈ received ∧ block.fragmented = false ∨
    ∃ messageID head, Opened received messageID block head ∧ head <+: block.data

theorem Traced.append (h : Traced received endpoint) (hblock : block ∈ received)
    (hdata : block.data ≠ []) (out : Nat) (nowMillis : UInt64) (delivered : List Block) :
    Traced received (endpoint.appendFragmentedBlock out nowMillis delivered block).endpoint ∧
      ∀ other ∈ (endpoint.appendFragmentedBlock out nowMillis delivered block).delivered,
        other ∈ delivered ∨ Genuine received other := by
  have hturn := endpoint.turn out nowMillis delivered block
  generalize endpoint.appendFragmentedBlock out nowMillis delivered block = result at hturn ⊢
  have hparts (haccepts : endpoint.Accepts block) := firstPart_add haccepts nowMillis
  cases hturn with
  | keeps new _ _ hnew => exact ⟨h, by grind [Genuine]⟩
  | adds metas _ haccepts hmetas =>
    exact ⟨by grind [Traced, Accepts, Remembers, Opened], fun _ => .inl⟩
  | delivers metas found message haccepts hmetas hfound hdone =>
    obtain ⟨hgone, head, hhead, hprefix⟩ :=
      (endpoint.reasm.add_carries block.part _).done message hdone
    have hopened : Opened received block.messageID found.block head := by
      cases hfollow : block.followOn with
      | true =>
        rw [firstWith_part_of_followOn hfollow haccepts] at hhead
        grind [Traced, Remembers]
      | false =>
        rw [firstWith_part_of_first hfollow hdata] at hhead
        grind [Accepts, Remembers, Opened]
    have herase (other : UInt32) (hother : other ≠ block.messageID) :=
      @AList.lookup_erase_ne _ (fun _ => DeliveryMeta) _ other block.messageID metas hother
    have hnext : Traced received
        ⟨(endpoint.reasm.add block.part nowMillis).1, endpoint.maxMeta, metas.erase block.messageID⟩ := by
      intro other first held hfirst hheld
      have hother : other ≠ block.messageID := by
        rintro rfl
        simp at hheld
      grind [Traced, Remembers]
    refine ⟨hnext, ?_⟩
    rw [List.forall_mem_append, List.forall_mem_singleton]
    exact ⟨fun _ => .inl, .inr (.inr ⟨_, head, hopened, hprefix⟩)⟩

theorem Traced.expire (h : Traced received endpoint) (cutoff : UInt64) :
    Traced received (endpoint.expire cutoff) := by
  intro messageID head found hfirst hfound
  obtain ⟨entry, hentry, -, hhead⟩ := Reassembler.firstPart_expire_eq_some.mp hfirst
  have hold := (Table.lookup_keep_eq_some ..).mp hfound
  exact h _ head _ (by simp [Reassembler.firstPart, hentry, hhead]) hold.1

end Endpoint

theorem nextBlock_data_ne_nil {rest after : Bytes} {block : Block}
    (h : nextBlock rest = .ok (some (block, after))) : block.data ≠ [] := by
  have hread {head : Block} {body : Bytes} (h : readData head body = .ok (some (block, after))) :
      block.data ≠ [] := by
    unfold readData at h
    dsimp only at h
    split_ifs at h
    cases h
    simp only [ne_eq, List.take_eq_nil_iff, not_or]
    grind
  unfold nextBlock at h
  split at h
  · cases h
  split_ifs at h
  · exact hread h
  obtain ⟨_, -, h⟩ := bind_eq_ok.mp h
  obtain ⟨_, -, h⟩ := bind_eq_ok.mp h
  exact hread h

theorem Endpoint.Traced.parseBlocks {endpoint : Endpoint} {received : List Block}
    (h : Traced received endpoint) (out : Nat) (nowMillis : UInt64) {fuel : Nat} {rest : Bytes}
    (delivered : List Block) (hread : ∀ block ∈ readBlocks fuel rest, block ∈ received) :
    Traced received (parseBlocks out nowMillis fuel endpoint rest delivered).endpoint ∧
      ∀ block ∈ (parseBlocks out nowMillis fuel endpoint rest delivered).delivered,
        block ∈ delivered ∨ Genuine received block := by
  induction fuel generalizing endpoint rest delivered with
  | zero => exact ⟨h, fun _ => .inl⟩
  | succ fuel ih =>
    rw [readBlocks] at hread
    rw [Endpoint.parseBlocks]
    cases hnext : nextBlock rest with
    | error error => exact ⟨h, fun _ => .inl⟩
    | ok found =>
      rcases found with _ | ⟨block, later⟩
      · exact ⟨h, fun _ => .inl⟩
      simp only [hnext, List.forall_mem_cons] at hread
      obtain ⟨happend, hgenuine⟩ := h.append hread.1 (nextBlock_data_ne_nil hnext) _ _ _
      dsimp only
      split
      · exact ⟨happend, hgenuine⟩
      · obtain ⟨hlater, hrest⟩ := ih happend _ hread.2
        exact ⟨hlater, fun other hother => (hrest _ hother).elim (hgenuine _) .inr⟩

inductive EndpointCall where
  | parse (payload : Bytes) (out : Nat) (nowMillis : UInt64)
  | expire (cutoff : UInt64)

def EndpointCall.blocks (sha256 : Bytes → FixedBytes 32) : EndpointCall → List Block
  | parse payload _ _ => payloadBlocks sha256 payload
  | expire _ => []

def Endpoint.call (sha256 : Bytes → FixedBytes 32) (endpoint : Endpoint) : EndpointCall → Endpoint
  | .parse payload out nowMillis => (endpoint.parse sha256 payload out nowMillis).endpoint
  | .expire cutoff => endpoint.expire cutoff

theorem Endpoint.Traced.parse {endpoint : Endpoint} {received : List Block}
    (h : Traced received endpoint) {sha256 : Bytes → FixedBytes 32} {payload : Bytes} (out : Nat)
    (nowMillis : UInt64) (hread : ∀ block ∈ payloadBlocks sha256 payload, block ∈ received) :
    Traced received (endpoint.parse sha256 payload out nowMillis).endpoint ∧
      ∀ block ∈ (endpoint.parse sha256 payload out nowMillis).delivered, Genuine received block := by
  unfold payloadBlocks at hread
  unfold Endpoint.parse
  split
  · exact ⟨h, nofun⟩
  next blocks hopen =>
  rw [hopen] at hread
  obtain ⟨hnext, hgenuine⟩ := h.parseBlocks _ _ [] hread
  exact ⟨hnext, fun block hblock => (hgenuine _ hblock).resolve_left nofun⟩

variable (sha256 : Bytes → FixedBytes 32)

/-- Whatever calls came before, a block that is put out is one of the payload, whole, or has its
delivery instructions from a first fragment received so far whose bytes its data begins with. -/
theorem deliveries_unmixed (maxEntries maxMessage : Nat)
    (calls : List EndpointCall) (payload : Bytes) (out : Nat) (nowMillis : UInt64) :
    ∀ block ∈ ((run (Endpoint.call sha256) (Endpoint.new maxEntries maxMessage) calls).parse sha256
        payload out nowMillis).delivered,
      Endpoint.Genuine (calls.flatMap (EndpointCall.blocks sha256) ++ payloadBlocks sha256 payload)
        block := by
  have halong : Along (call sha256) (fun _ call => ∀ block ∈ EndpointCall.blocks sha256 call,
      block ∈ calls.flatMap (EndpointCall.blocks sha256) ++ payloadBlocks sha256 payload)
      (new maxEntries maxMessage) calls :=
    along_of_forall (fun call hcall block hblock =>
      List.mem_append_left _ (List.mem_flatMap.mpr ⟨call, hcall, hblock⟩)) _
  refine (Endpoint.Traced.parse ?_ out nowMillis fun _ => List.mem_append_right _).2
  refine run_invariant (fun endpoint call hcall h => ?_) (fun _ _ _ => nofun) halong
  cases call with
  | parse payload out nowMillis => exact (h.parse _ _ hcall).1
  | expire cutoff => exact h.expire _

/-- A tunnel message with these blocks, for a hash whose first bytes are zero. -/
def framed (blocks : Bytes) : Bytes :=
  [0, 0, 0, 1] ++ List.replicate 20 0 ++ List.replicate (1003 - blocks.length) 1 ++ 0 :: blocks

/-- A message in two parts. -/
theorem deliveries_unmixed_two : ∃ block : Block, block.data = [1, 3] ∧
    Endpoint.Genuine ([EndpointCall.parse (framed [8, 0, 0, 0, 7, 0, 1, 1]) 1 1].flatMap
      (EndpointCall.blocks fun _ => FixedBytes.zero 32) ++
        payloadBlocks (fun _ => FixedBytes.zero 32) (framed [0x83, 0, 0, 0, 7, 0, 1, 3])) block :=
  ⟨{ messageID := 7, last := true, data := [1, 3] }, rfl,
    deliveries_unmixed _ 8 100 _ _ 1 2 _ (by decide +kernel)⟩

/-- What happens to the tables under the lock: one block of a payload, or an expiry. -/
inductive EndpointEvent where
  | block (out : Nat) (nowMillis : UInt64) (delivered : List Block) (block : Block)
  | expire (cutoff : UInt64)

namespace Endpoint

def handle (endpoint : Endpoint) : EndpointEvent → Endpoint
  | .block out nowMillis delivered block =>
    (endpoint.appendFragmentedBlock out nowMillis delivered block).endpoint
  | .expire cutoff => endpoint.expire cutoff

/-- The step keeps the instructions of every message whose first part it keeps. -/
def KeepsInstructions (endpoint : Endpoint) : EndpointEvent → Prop
  | .block _ _ _ block => endpoint.KeepsFirst block
  | .expire cutoff => endpoint.KeepsLiving cutoff

def blockEvents (out : Nat) (nowMillis : UInt64) :
    Nat → Endpoint → Bytes → List Block → List EndpointEvent
  | 0, _, _, _ => []
  | fuel + 1, endpoint, rest, delivered =>
    match nextBlock rest with
    | .ok (some (block, rest)) =>
      let appended := endpoint.appendFragmentedBlock out nowMillis delivered block
      .block out nowMillis delivered block ::
        if appended.error.isSome then []
        else blockEvents out nowMillis fuel appended.endpoint rest appended.delivered
    | _ => []

def events (sha256 : Bytes → FixedBytes 32) (endpoint : Endpoint) : EndpointCall → List EndpointEvent
  | .parse payload out nowMillis =>
    match openPayload sha256 payload with
    | .error _ => []
    | .ok blocks => blockEvents out nowMillis (blocks.length + 1) endpoint blocks []
  | .expire cutoff => [.expire cutoff]

def trace (sha256 : Bytes → FixedBytes 32) : Endpoint → List EndpointCall → List EndpointEvent
  | _, [] => []
  | endpoint, call :: rest => endpoint.events sha256 call ++ trace sha256 (endpoint.call sha256 call) rest

theorem run_blockEvents (out : Nat) (nowMillis : UInt64) (fuel : Nat) (endpoint : Endpoint)
    (rest : Bytes) (delivered : List Block) :
    run handle endpoint (blockEvents out nowMillis fuel endpoint rest delivered) =
      (parseBlocks out nowMillis fuel endpoint rest delivered).endpoint := by
  induction fuel generalizing endpoint rest delivered with
  | zero => rfl
  | succ fuel ih => grind [blockEvents, parseBlocks, handle, run_cons, run_nil]

theorem run_trace (endpoint : Endpoint) (calls : List EndpointCall) :
    run handle endpoint (trace sha256 endpoint calls) = run (call sha256) endpoint calls := by
  induction calls generalizing endpoint with
  | nil => rfl
  | cons call rest ih =>
    have hcall : run handle endpoint (endpoint.events sha256 call) = endpoint.call sha256 call := by
      cases call <;> grind [events, call, parse, handle, run_blockEvents, run_cons, run_nil]
    rw [trace, run_append, hcall, ih, run_cons]

/-- The first part comes, is thrown away for another one, and comes again. The instructions are
still those of the first time and expire earlier than the part. -/
def repeatedFirst : List EndpointCall :=
  [.parse (framed [8, 0, 0, 0, 7, 0, 1, 1]) 1 1, .parse (framed [8, 0, 0, 0, 7, 0, 1, 2]) 1 2,
    .parse (framed [8, 0, 0, 0, 7, 0, 1, 1]) 1 10, .expire 5]

end Endpoint

end Runs

end Ivnp.Tunnel
