import Ivnp.Tunnel.ShortInverse
import Ivnp.Tunnel.VariableLayers

/-!
The short build from end to end. Layers are keystreams, so they cancel in any
order: a record that was concealed with the layers of the hops before it is bare
when its hop receives it, and a reply gathers the layers of the hops behind it,
which the creator strips. The induction is over the path; for every slot it says
which layers are still on it.
-/

namespace Ivnp.Tunnel

open Ivnp.Lib ShortBuildPlan List

section Transit

variable {crypto : ShortBuildCrypto}

theorem transformOthers_spec (replyKey : FixedBytes 32) (slot index : Nat)
    {records : List ShortRecord} (hmax : index + records.length ≤ maxVariableBuildRecords) :
    ∃ others, transformOthers crypto replyKey slot index records = some others ∧
      others.length = records.length ∧
      ∀ offset : Nat, others[offset]? = records[offset]?.map fun record =>
        if index + offset = slot then record
        else shortLayer crypto (index + offset) record replyKey := by
  induction records generalizing index with
  | nil => exact ⟨[], rfl, rfl, fun offset => rfl⟩
  | cons record rest ih =>
    rw [length_cons] at hmax
    obtain ⟨others, hothers, hlength, hget⟩ := ih (index + 1) (by omega)
    unfold transformOthers
    rw [hothers, transformShortBuildRecord_eq (by omega)]
    refine ⟨(if index = slot then record else shortLayer crypto index record replyKey) :: others,
      ?_, by rw [length_cons, hlength, length_cons], ?_⟩
    · split
      · rfl
      · rfl
    · intro offset
      cases offset with
      | zero => rfl
      | succ offset =>
        rw [getElem?_cons_succ, hget, Nat.add_right_comm _ 1]
        rfl

/-- One hop of a build with the request written for it, its record and keys, and
the reply it gives. -/
structure BuiltHop (crypto : ShortBuildCrypto) where
  hop : ShortBuildHop
  request : ShortBuildRequest
  plaintext : FixedBytes shortBuildRequestPlainSize
  record : ShortRecord
  keys : ShortBuildKeys
  reply : FixedBytes shortBuildReplyPlainSize
  filled : fillShortRequest crypto hop request = some (plaintext, record, keys)
  valid : validShortBuildOptions request.bandwidth request.gateway = true
  answered : replyPlaintext hop.answer request = some reply
  validReply : openShortFrom.validReply reply = true

namespace BuiltHop

variable (built : BuiltHop crypto)

def slot : Nat := built.hop.position.toNat

def replyKey : FixedBytes 32 := built.keys.replyKey

def written : TransitRequest := ⟨built.plaintext, built.request, built.keys, built.slot⟩

def sealed : ShortRecord :=
  crypto.sealWith built.keys.replyKey (shortBuildNonce built.slot) built.reply built.keys.hash

theorem encrypted : encryptShortBuildRequest crypto built.hop.router
    (crypto.x25519Public built.hop.staticPrivate) built.plaintext built.hop.ephemeral =
      some (built.record, built.keys) := by
  have h := built.filled
  unfold fillShortRequest at h
  split at h
  · cases h
  split at h
  · cases h
  obtain ⟨encrypted, hencrypt, heq⟩ := Option.map_eq_some_iff.mp h
  obtain ⟨hplain, rfl⟩ := Prod.mk.inj heq
  rw [← hplain]
  exact hencrypt

theorem parsed : parseShortBuildRequest parseRequestOptions built.plaintext.val =
    some built.request := by
  have h := built.filled
  unfold fillShortRequest at h
  split at h
  · cases h
  next options hoptions =>
  split at h
  · cases h
  next plaintext hplaintext =>
  obtain ⟨encrypted, -, heq⟩ := Option.map_eq_some_iff.mp h
  obtain ⟨rfl, -⟩ := Prod.mk.inj heq
  exact parseShortBuildRequest_marshal hoptions built.valid hplaintext

/-- A hop that finds its bare record in one slot reads the request written for
it, puts its reply there and adds its layer everywhere else. -/
theorem transitRecords_eq (hsound : crypto.Sound) {records : List ShortRecord}
    (hmax : records.length ≤ maxVariableBuildRecords)
    (hrecord : records[built.slot]? = some built.record)
    (halone : ∀ (slot : Nat) (record : ShortRecord), records[slot]? = some record →
      record.val.take shortBuildPeerSize = built.hop.router.val.take shortBuildPeerSize →
        slot = built.slot) :
    ∃ passed, transitRecords crypto built.hop.router built.hop.staticPrivate built.hop.answer
        records = some (built.written, passed) ∧
      passed.length = records.length ∧ passed[built.slot]? = some built.sealed ∧
      ∀ slot : Nat, slot ≠ built.slot → passed[slot]? = records[slot]?.map fun record =>
        shortLayer crypto slot record built.replyKey := by
  have hslot := (List.getElem?_eq_some_iff.mp hrecord).1
  have hfound : findSlot built.hop.router 0 none (records.map Subtype.val) =
      some (built.slot, built.record.val) := by
    rw [← Nat.zero_add built.slot]
    refine findSlot_of_unique ?_ (encryptShortBuildRequest_eq_some built.encrypted).1 ?_
    · rw [getElem?_map, hrecord, Option.map_some]
    · intro other bytes hother hbytes
      rw [getElem?_map] at hother
      obtain ⟨record, hrecord, rfl⟩ := Option.map_eq_some_iff.mp hother
      exact halone _ _ hrecord hbytes
  have hsealed : sealShortBuildReply crypto built.reply built.keys built.slot =
      some built.sealed := if_neg (by omega)
  obtain ⟨passed, hothers, hlength, hget⟩ := @transformOthers_spec crypto built.keys.replyKey
    built.slot 0 (records.set built.slot built.sealed) (by rw [length_set]; omega)
  refine ⟨passed, ?_, by rw [hlength, length_set], ?_, ?_⟩
  · unfold transitRecords
    rw [if_neg (by omega), hfound]
    dsimp only
    rw [hrecord]
    dsimp only
    rw [decryptShortBuildRequest_encrypt hsound built.encrypted]
    dsimp only
    rw [built.parsed]
    dsimp only
    rw [built.answered, Option.bind_some, hsealed]
    dsimp only
    rw [hothers]
    rfl
  · rw [hget, getElem?_set_self hslot, Nat.zero_add, Option.map_some, if_pos rfl]
  · intro slot hne
    rw [hget, getElem?_set_ne (Ne.symm hne), Nat.zero_add]
    simp only [if_neg hne]
    rfl

end BuiltHop

end Transit

variable {written : List TransitRequest} {earlier : List (FixedBytes 32)}
  {concealed : List ShortRecord}

section Relay

variable (crypto : ShortBuildCrypto)

/-- Every hop of the rest finds its record under the layers of the hops before
it, of which `earlier` come before the rest. -/
def Concealed : List (FixedBytes 32) → List (BuiltHop crypto) → List ShortRecord → Prop
  | _, [], _ => True
  | earlier, built :: rest, records =>
    records[built.slot]? = some (shortLayers crypto earlier built.slot built.record) ∧
      Concealed (earlier ++ [built.replyKey]) rest records

/-- Every reply is under the layers of the hops behind its own. -/
def Answered : List (BuiltHop crypto) → List ShortRecord → Prop
  | [], _ => True
  | built :: rest, replies =>
    replies[built.slot]? =
        some (shortLayers crypto (rest.map BuiltHop.replyKey) built.slot built.sealed) ∧
      Answered rest replies

/-- No hop meets its prefix in another slot than its own while the records pass
along the path. -/
def alone : List ShortBuildHop → List ShortRecord → Bool
  | [], _ => true
  | hop :: rest, records =>
    decide (∀ pair ∈ records.zipIdx,
      pair.1.val.take shortBuildPeerSize = hop.router.val.take shortBuildPeerSize →
        pair.2 = hop.position.toNat) &&
      match transitRecords crypto hop.router hop.staticPrivate hop.answer records with
      | none => true
      | some (_, passed) => alone rest passed

variable {crypto}

variable {path : List (BuiltHop crypto)} {records : List ShortRecord}

theorem Concealed.congr {others : List ShortRecord} (h : Concealed crypto earlier path records)
    (hsame : ∀ built ∈ path, others[built.slot]? = records[built.slot]?) :
    Concealed crypto earlier path others := by
  induction path generalizing earlier with
  | nil => trivial
  | cons built rest ih =>
    obtain ⟨hown, hrest⟩ := forall_mem_cons.mp hsame
    exact ⟨hown.trans h.1, ih h.2 hrest⟩

/-- The layer of the hop that has just answered is gone from the records of all
hops behind it. -/
theorem Concealed.strip {replyKey : FixedBytes 32}
    {passed : List ShortRecord} (h : Concealed crypto (replyKey :: earlier) path records)
    (hpassed : ∀ built ∈ path, passed[built.slot]? = records[built.slot]?.map fun record =>
      shortLayer crypto built.slot record replyKey) :
    Concealed crypto earlier path passed := by
  induction path generalizing earlier with
  | nil => trivial
  | cons built rest ih =>
    obtain ⟨hown, hrest⟩ := forall_mem_cons.mp hpassed
    refine ⟨?_, ih h.2 hrest⟩
    rw [hown, h.1]
    show some (shortLayer crypto built.slot (shortLayers crypto earlier built.slot
      (shortLayer crypto built.slot built.record replyKey)) replyKey) = _
    rw [shortLayers_shortLayer, shortLayer_cancel]

theorem alone_cons {hop : ShortBuildHop} {rest : List ShortBuildHop}
    (h : alone crypto (hop :: rest) records = true) :
    (∀ (slot : Nat) (record : ShortRecord), records[slot]? = some record →
      record.val.take shortBuildPeerSize = hop.router.val.take shortBuildPeerSize →
        slot = hop.position.toNat) ∧
      ∀ own passed, transitRecords crypto hop.router hop.staticPrivate hop.answer records =
        some (own, passed) → alone crypto rest passed = true := by
  obtain ⟨hslots, hrest⟩ := (Bool.and_eq_true _ _).mp h
  refine ⟨fun slot record hrecord => ?_, fun own passed htransit => ?_⟩
  · exact of_decide_eq_true hslots (record, slot) (mem_zipIdx_iff_getElem?.mpr hrecord)
  · rw [htransit] at hrest
    exact hrest

theorem relayShort_eq (hsound : crypto.Sound) (hslots : (path.map BuiltHop.slot).Nodup)
    (hmax : records.length ≤ maxVariableBuildRecords)
    (hconcealed : Concealed crypto [] path records)
    (halone : alone crypto (path.map BuiltHop.hop) records = true) :
    ∃ replies, relayShort crypto (path.map BuiltHop.hop) records =
        some (path.map BuiltHop.written, replies) ∧
      Answered crypto path replies ∧
      ∀ slot : Nat, slot ∉ path.map BuiltHop.slot → replies[slot]? =
        records[slot]?.map (shortLayers crypto (path.map BuiltHop.replyKey) slot) := by
  induction path generalizing records with
  | nil =>
    refine ⟨records, rfl, trivial, fun slot _ => ?_⟩
    exact Option.map_id_apply.symm
  | cons built rest ih =>
    obtain ⟨hfresh, hslots⟩ := nodup_cons.mp hslots
    obtain ⟨hunique, halone⟩ := alone_cons halone
    obtain ⟨passed, htransit, hlength, hown, hothers⟩ :=
      built.transitRecords_eq hsound hmax hconcealed.1 hunique
    have hne : ∀ other ∈ rest, other.slot ≠ built.slot := fun other hother heq =>
      hfresh (heq ▸ mem_map_of_mem hother)
    obtain ⟨replies, hrelay, hanswered, hrest⟩ := ih hslots (hlength ▸ hmax)
      (hconcealed.2.strip fun other hother => hothers _ (hne _ hother))
      (halone _ _ htransit)
    refine ⟨replies, ?_, ⟨?_, hanswered⟩, ?_⟩
    · rw [map_cons, relayShort, htransit]
      dsimp only
      rw [hrelay]
      rfl
    · rw [hrest _ hfresh, hown, Option.map_some]
    · intro slot hslot
      rw [map_cons, mem_cons, not_or] at hslot
      rw [hrest _ hslot.2, hothers _ hslot.1, Option.map_map]
      rfl

theorem openShortFrom_eq (hsound : crypto.Sound) {replies : List ShortRecord}
    (hslots : ∀ built ∈ path, built.slot < maxVariableBuildRecords)
    (h : Answered crypto path replies) :
    openShortFrom crypto replies (path.map fun built => (built.keys, built.hop.position)) =
      some (path.map BuiltHop.reply) := by
  induction path with
  | nil => rfl
  | cons built rest ih =>
    obtain ⟨hslot, hslots⟩ := forall_mem_cons.mp hslots
    have hkeys : ((rest.map fun built => (built.keys, built.hop.position)).map
        (·.1.replyKey)) = rest.map BuiltHop.replyKey := map_map
    have hopen : openShortBuildReply crypto built.sealed built.keys built.slot =
        some built.reply :=
      (if_neg (by omega)).trans (hsound.chachaWith _ _ _ _)
    have hposition : built.hop.position.toNat = built.slot := rfl
    rw [map_cons, openShortFrom, hposition, h.1]
    dsimp only
    rw [hkeys, transformAll_eq hslot]
    dsimp only
    rw [shortLayers_cancel, hopen]
    dsimp only
    rw [built.validReply, ih hslots h.2]
    rfl

end Relay

section Creation

variable {crypto : ShortBuildCrypto}

variable {records : List ShortRecord}

/-- What the loop that fills the records leaves behind: every hop of the path has
its request in its slot, the other slots are as they were. -/
theorem fillShortRecords_eq_some {pairs : List (ShortBuildHop × ShortBuildRequest)}
    {filled : List ShortRecord}
    (hvalid : ∀ pair ∈ pairs, validShortBuildOptions pair.2.bandwidth pair.2.gateway = true)
    (hrandom : ∀ pair ∈ pairs, shortBuildReplyPlainSize - 3 ≤ pair.1.answer.random.length)
    (h : fillShortRecords crypto pairs records = some (written, filled)) :
    ∃ path : List (BuiltHop crypto), pairs = path.map (fun built => (built.hop, built.request)) ∧
      written = path.map BuiltHop.written ∧
      filled = path.foldl (fun records built => records.set built.slot built.record) records := by
  induction pairs generalizing records written with
  | nil =>
    obtain ⟨rfl, rfl⟩ := Prod.mk.inj (Option.some.inj h)
    exact ⟨[], rfl, rfl, rfl⟩
  | cons pair rest ih =>
    obtain ⟨hop, request⟩ := pair
    obtain ⟨hvalidOwn, hvalidRest⟩ := forall_mem_cons.mp hvalid
    obtain ⟨hrandomOwn, hrandomRest⟩ := forall_mem_cons.mp hrandom
    obtain ⟨reply, hreply, hvalidReply⟩ := replyPlaintext_isSome hop.answer _ hrandomOwn
    unfold fillShortRecords at h
    split at h
    · cases h
    next plaintext record keys hfill =>
    obtain ⟨others, hothers, heq⟩ := Option.map_eq_some_iff.mp h
    obtain ⟨rfl, rfl⟩ := Prod.mk.inj heq
    obtain ⟨path, rfl, hwritten, hfilled⟩ := ih hvalidRest hrandomRest hothers
    refine ⟨⟨hop, request, plaintext, record, keys, reply, hfill, hvalidOwn, hreply,
      hvalidReply⟩ :: path, rfl, ?_, hfilled⟩
    rw [hwritten]
    rfl

variable {path : List (BuiltHop crypto)}

theorem getElem?_foldl_set_of_notMem {slot : Nat} (h : slot ∉ path.map BuiltHop.slot) :
    (path.foldl (fun records built => records.set built.slot built.record) records)[slot]? =
      records[slot]? := by
  induction path generalizing records with
  | nil => rfl
  | cons built rest ih =>
    rw [map_cons, mem_cons, not_or] at h
    rw [foldl_cons, ih h.2, getElem?_set_ne (Ne.symm h.1)]

theorem length_foldl_set (path : List (BuiltHop crypto)) (records : List ShortRecord) :
    (path.foldl (fun records built => records.set built.slot built.record) records).length =
      records.length := by
  induction path generalizing records with
  | nil => rfl
  | cons built rest ih => rw [foldl_cons, ih, length_set]

theorem getElem?_foldl_set (hslots : (path.map BuiltHop.slot).Nodup)
    (hbound : ∀ built ∈ path, built.slot < records.length) :
    ∀ built ∈ path, (path.foldl (fun records built => records.set built.slot built.record)
      records)[built.slot]? = some built.record := by
  induction path generalizing records with
  | nil => exact forall_mem_nil _
  | cons built rest ih =>
    obtain ⟨hfresh, hslots⟩ := nodup_cons.mp hslots
    obtain ⟨hown, hrest⟩ := forall_mem_cons.mp hbound
    refine forall_mem_cons.mpr ⟨?_, ih hslots fun other hother => ?_⟩
    · rw [foldl_cons, getElem?_foldl_set_of_notMem hfresh, getElem?_set_self hown]
    · rw [length_set]
      exact hrest _ hother

theorem preprocessShortFrom_eq_some
    (hslots : (path.map BuiltHop.slot).Nodup)
    (hbound : ∀ built ∈ path, built.slot < maxVariableBuildRecords)
    (hfilled : ∀ built ∈ path, records[built.slot]? = some built.record)
    (h : preprocessShortFrom crypto earlier
      (path.map fun built => (built.keys, built.hop.position)) records = some concealed) :
    concealed.length = records.length ∧ Concealed crypto earlier path concealed ∧
      ∀ slot : Nat, slot ∉ path.map BuiltHop.slot → concealed[slot]? = records[slot]? := by
  induction path generalizing earlier records with
  | nil =>
    cases h
    exact ⟨rfl, trivial, fun _ _ => rfl⟩
  | cons built rest ih =>
    obtain ⟨hfresh, hslots⟩ := nodup_cons.mp hslots
    obtain ⟨hown, hbound⟩ := forall_mem_cons.mp hbound
    obtain ⟨hrecord, hfilled⟩ := forall_mem_cons.mp hfilled
    have hposition : built.hop.position.toNat = built.slot := rfl
    rw [map_cons, preprocessShortFrom, hposition, hrecord] at h
    dsimp only at h
    rw [transformAll_eq hown] at h
    have hslot := (List.getElem?_eq_some_iff.mp hrecord).1
    have hrest : ∀ other ∈ rest, (records.set built.slot (shortLayers crypto earlier built.slot
        built.record))[other.slot]? = some other.record := by
      intro other hother
      have hne : built.slot ≠ other.slot := fun heq => hfresh (heq ▸ mem_map_of_mem hother)
      rw [getElem?_set_ne hne, hfilled _ hother]
    obtain ⟨hlength, hconcealed, hothers⟩ := ih hslots hbound hrest h
    refine ⟨hlength.trans length_set, ⟨?_, hconcealed⟩, fun slot hmem => ?_⟩
    · rw [hothers _ hfresh, getElem?_set_self hslot]
    · rw [map_cons, mem_cons, not_or] at hmem
      rw [hothers _ hmem.2, getElem?_set_ne (Ne.symm hmem.1)]

theorem requestsFrom_hops (plan : ShortBuildPlan) (first : Bool) {hops : List ShortBuildHop}
    {messageIDs : List UInt32} (h : messageIDs.length = hops.length) :
    (plan.requestsFrom first hops messageIDs).map Prod.fst = hops := by
  induction hops generalizing first messageIDs with
  | nil => cases messageIDs <;> rfl
  | cons hop rest ih =>
    cases messageIDs with
    | nil => cases h
    | cons messageID messageIDs =>
      show hop :: (plan.requestsFrom false rest messageIDs).map Prod.fst = _
      rw [ih _ (Nat.succ.inj h)]

/-- What both creators have when they have preprocessed the records: a path of
hops whose records await them, and all other slots as they were. -/
structure Prepared (plan : ShortBuildPlan) (written : List TransitRequest)
    (records concealed : List ShortRecord) (path : List (BuiltHop crypto)) : Prop where
  requests : plan.requests = path.map fun built => (built.hop, built.request)
  hops : plan.hops = path.map BuiltHop.hop
  nonempty : path ≠ []
  written : written = path.map BuiltHop.written
  slots : (path.map BuiltHop.slot).Nodup
  bound : ∀ built ∈ path, built.slot < maxVariableBuildRecords
  room : concealed.length ≤ maxVariableBuildRecords
  hidden : Concealed crypto [] path concealed
  others : ∀ slot : Nat, slot ∉ path.map BuiltHop.slot → concealed[slot]? = records[slot]?

theorem prepared_of_preprocess {plan : ShortBuildPlan} {filled : List ShortRecord} (hvalid : plan.validHops crypto = true)
    (hcount : plan.messageIDs.length = plan.hops.length + 1)
    (hrandom : ∀ hop ∈ plan.hops, shortBuildReplyPlainSize - 3 ≤ hop.answer.random.length)
    (hfill : fillShortRecords crypto plan.requests records = some (written, filled))
    (hpreprocess : preprocessShortBuildRecords crypto filled (written.map (·.keys))
      plan.positions = some concealed) :
    ∃ path : List (BuiltHop crypto), Prepared plan written records concealed path := by
  have hops : plan.requests.map Prod.fst = plan.hops := by
    refine requestsFrom_hops _ _ ?_
    rw [length_tail, hcount, Nat.add_sub_cancel]
  obtain ⟨-, hoptions, -⟩ := of_decide_eq_true hvalid
  obtain ⟨path, hpairs, rfl, rfl⟩ := fillShortRecords_eq_some hoptions
    (fun pair hpair => hrandom _ (hops ▸ mem_map_of_mem hpair)) hfill
  rw [hpairs, map_map] at hops
  have hpositions : plan.positions = path.map fun built => built.hop.position := by
    unfold positions
    rw [← hops, map_map]
    rfl
  have hzip : ((path.map BuiltHop.written).map (·.keys)).zip plan.positions =
      path.map fun built => (built.keys, built.hop.position) := by
    rw [hpositions, map_map, zip_map']
    rfl
  unfold preprocessShortBuildRecords at hpreprocess
  split at hpreprocess
  · cases hpreprocess
  next hsome =>
  split at hpreprocess
  · cases hpreprocess
  next hsize =>
  split at hpreprocess
  · cases hpreprocess
  next hslots =>
  obtain ⟨hbound, hnodup⟩ := not_not.mp hslots
  rw [length_foldl_set] at hsize hbound
  have hsizes : ∀ built ∈ path, built.slot < records.length := fun built hbuilt =>
    hbound _ (hpositions ▸ mem_map_of_mem hbuilt)
  have hmax : ∀ built ∈ path, built.slot < maxVariableBuildRecords := fun built hbuilt => by
    have := hsizes _ hbuilt
    omega
  have hdistinct : (path.map BuiltHop.slot).Nodup := by
    rw [hpositions] at hnodup
    have hnat := hnodup.map fun _ _ => UInt8.toNat_inj.mp
    rwa [map_map] at hnat
  rw [hzip] at hpreprocess
  obtain ⟨hlength, hconcealed, hothers⟩ := preprocessShortFrom_eq_some hdistinct hmax
    (getElem?_foldl_set hdistinct hsizes) hpreprocess
  rw [length_foldl_set] at hlength
  refine ⟨path, hpairs, hops.symm, ?_, rfl, hdistinct, hmax, by omega, hconcealed,
    fun slot hslot => ?_⟩
  · rintro rfl
    exact hsome (.inl rfl)
  · rw [hothers _ hslot, getElem?_foldl_set_of_notMem hslot]

end Creation

section EndToEnd

variable (crypto : ShortBuildCrypto)

/-- What a build promises: every hop reads the request written for it, with the
keys the creator kept, and the replies open to what the hops have answered. -/
def Completes (plan : ShortBuildPlan) (created : Created) (replies : List ShortRecord) : Prop :=
  relayShort crypto plan.hops created.records = some (created.written, replies) ∧
    created.written.map (·.request) = plan.requests.map (·.2) ∧
    ∃ plaintexts, openShortBuildReplies crypto replies created.keys plan.positions =
        some plaintexts ∧
      plaintexts.map some = plan.requests.map fun pair => replyPlaintext pair.1.answer pair.2

variable {crypto}

variable {plan : ShortBuildPlan}

theorem Prepared.completes (hsound : crypto.Sound)
    {records sent : List ShortRecord} {path : List (BuiltHop crypto)}
    (h : Prepared plan written records concealed path) (hlength : sent.length = concealed.length)
    (hsent : ∀ built ∈ path, sent[built.slot]? = concealed[built.slot]?)
    (halone : alone crypto plan.hops sent = true) :
    ∃ replies, Completes crypto plan ⟨written, sent⟩ replies ∧
      ∀ slot : Nat, slot ∉ path.map BuiltHop.slot → replies[slot]? =
        sent[slot]?.map (shortLayers crypto (path.map BuiltHop.replyKey) slot) := by
  rw [h.hops] at halone
  obtain ⟨replies, hrelay, hanswered, hothers⟩ := relayShort_eq hsound h.slots
    (hlength ▸ h.room) (h.hidden.congr hsent) halone
  rw [← h.hops, ← h.written] at hrelay
  have hzip : ((path.map BuiltHop.written).map (·.keys)).zip plan.positions =
      path.map fun built => (built.keys, built.hop.position) := by
    unfold positions
    rw [h.hops, map_map, map_map, zip_map']
    rfl
  refine ⟨replies, ⟨hrelay, ?_, path.map BuiltHop.reply, ?_, ?_⟩, hothers⟩
  · rw [h.requests, h.written, map_map, map_map]
    rfl
  · unfold openShortBuildReplies Created.keys
    rw [h.written, hzip, if_neg, openShortFrom_eq hsound h.bound hanswered]
    rintro (hempty | hcounts)
    · exact h.nonempty (map_eq_nil_iff.mp (map_eq_nil_iff.mp hempty))
    · refine hcounts ?_
      unfold positions
      simp only [h.hops, length_map]
  · rw [h.requests, map_map, map_map]
    refine map_congr_left fun built _ => ?_
    exact built.answered.symm

variable {fake : FakeRecord}

theorem verifyFake_of_layers {last : TransitRequest} {replies sent : List ShortRecord} {original : ShortRecord}
    (hlast : written.getLast? = some last)
    (hslot : fake.position.toNat < maxVariableBuildRecords)
    (hreply : replies[fake.position.toNat]? =
      some (shortLayer crypto fake.position.toNat original last.keys.replyKey)) :
    verifyFake crypto ⟨⟨written, sent⟩, crypto.sha256 original.val⟩ fake replies = true := by
  unfold verifyFake
  rw [hreply]
  rw [hlast]
  dsimp only
  rw [transformShortBuildRecord_eq hslot]
  rw [shortLayer_cancel, decide_eq_true_eq]

variable (hsound : crypto.Sound)
  (hrandom : ∀ hop ∈ plan.hops, shortBuildReplyPlainSize - 3 ≤ hop.answer.random.length)
include hsound hrandom

theorem startOutbound_completes {created : Created} (h : plan.startOutbound crypto = some created)
    (halone : alone crypto plan.hops created.records = true) :
    ∃ replies, Completes crypto plan created replies := by
  unfold startOutbound at h
  split at h
  · cases h
  split at h
  · cases h
  next hchecks =>
  split at h
  · cases h
  next written filled hfill =>
  obtain ⟨records, hpreprocess, rfl⟩ := Option.map_eq_some_iff.mp h
  rw [not_or, not_or, Bool.not_eq_true', Bool.not_eq_false, not_not] at hchecks
  obtain ⟨path, hprepared⟩ := prepared_of_preprocess hchecks.1 hchecks.2.1 hrandom hfill hpreprocess
  obtain ⟨replies, hcompletes, -⟩ := hprepared.completes hsound rfl (fun _ _ => rfl) halone
  exact ⟨replies, hcompletes⟩

/-- The fake record gets the layers of all hops but the last from the creator and
the layers of all hops on the way. -/
theorem startInbound_completes {created : CreatedInbound}
    (h : plan.startInbound crypto fake = some created) (hfake : fake.position ∉ plan.positions)
    (halone : alone crypto plan.hops created.records = true) :
    ∃ replies, Completes crypto plan created.toCreated replies ∧
      verifyFake crypto created fake replies = true := by
  unfold startInbound at h
  split at h
  · cases h
  split at h
  · cases h
  next hchecks =>
  split at h
  · cases h
  next random hrandomRecord =>
  dsimp only at h
  split at h
  · cases h
  next written filled hfill =>
  split at h
  · cases h
  next records hpreprocess =>
  split at h
  · cases h
  next concealed hconcealed =>
  obtain ⟨layered, hlayered, rfl⟩ := Option.map_eq_some_iff.mp h
  rw [not_or, not_or, Bool.not_eq_true', Bool.not_eq_false, not_not] at hchecks
  obtain ⟨path, hprepared⟩ := prepared_of_preprocess hchecks.1 hchecks.2.1 hrandom hfill hpreprocess
  have hslot := (List.getElem?_eq_some_iff.mp hconcealed).1
  have hmax : fake.position.toNat < maxVariableBuildRecords := by
    have := hprepared.room
    omega
  have hnotMem : fake.position.toNat ∉ path.map BuiltHop.slot := by
    intro hmem
    obtain ⟨built, hbuilt, hposition⟩ := mem_map.mp hmem
    refine hfake ?_
    unfold positions
    rw [hprepared.hops, map_map, ← UInt8.toNat_inj.mp hposition]
    exact mem_map_of_mem hbuilt
  have hne : ∀ built ∈ path, fake.position.toNat ≠ built.slot := fun built hbuilt heq =>
    hnotMem (heq ▸ mem_map_of_mem hbuilt)
  obtain ⟨replies, hcompletes, hothers⟩ := hprepared.completes hsound
    (length_set) (fun built hbuilt => getElem?_set_ne (hne _ hbuilt)) halone
  refine ⟨replies, hcompletes, ?_⟩
  -- the record as it was before any layer
  have horiginal : concealed = plan.fakeRecord crypto fake random := by
    have hsame := hprepared.others _ hnotMem
    rw [hconcealed, List.getElem?_set_self (List.getElem?_eq_some_iff.mp hrandomRecord).1] at hsame
    exact Option.some.inj hsame
  obtain ⟨front, last, rfl⟩ : ∃ front last, path = front ++ [last] :=
    ⟨_, _, (dropLast_append_getLast hprepared.nonempty).symm⟩
  have hwritten : written = front.map BuiltHop.written ++ [last.written] := by
    rw [hprepared.written, map_append]
    rfl
  have hfront : written.dropLast.map (·.keys.replyKey) = front.map BuiltHop.replyKey := by
    rw [hwritten, dropLast_concat, map_map]
    rfl
  rw [hfront, transformAll_eq hmax] at hlayered
  have hlast : written.getLast? = some last.written := by rw [hwritten, getLast?_concat]
  refine verifyFake_of_layers hlast hmax ?_
  rw [hothers _ hnotMem, getElem?_set_self hslot, ← Option.some.inj hlayered, horiginal,
    Option.map_some, map_append]
  unfold shortLayers
  rw [foldl_append]
  exact congrArg (fun record => some (shortLayer crypto _ record last.replyKey))
    (shortLayers_cancel _ _)

omit hsound hrandom

/-- A short build works for every path, slot assignment and randomness, in both
directions, and the creator of an inbound tunnel recognises its own record. -/
theorem short_build_completes (hsound : crypto.Sound) (plan : ShortBuildPlan)
    (hrandom : ∀ hop ∈ plan.hops, shortBuildReplyPlainSize - 3 ≤ hop.answer.random.length) :
    (∀ created, plan.startOutbound crypto = some created →
      alone crypto plan.hops created.records = true →
        ∃ replies, Completes crypto plan created replies) ∧
    ∀ fake created, plan.startInbound crypto fake = some created →
      fake.position ∉ plan.positions → alone crypto plan.hops created.records = true →
        ∃ replies, Completes crypto plan created.toCreated replies ∧
          verifyFake crypto created fake replies = true :=
  ⟨fun _ => startOutbound_completes hsound hrandom,
    fun _ _ => startInbound_completes hsound hrandom⟩

/-- Primitives without secrets; the keystream is the last byte of the key. -/
def plainShortCrypto : ShortBuildCrypto where
  toBuildCrypto := { plainCrypto with x25519 := fun left right => some (left.xor right) }
  tunnelKDF key _ := (key, key)
  sealWith _ _ plaintext _ :=
    ⟨plaintext.val ++ List.replicate 16 0, by simp [shortBuildReplyPlainSize, shortBuildRecordSize]⟩
  openWith _ _ record _ := some (FixedBytes.copy _ record.val)
  keyStream key _ := ⟨List.replicate shortBuildRecordSize (key.val.getD 31 0), by simp⟩

theorem plainShortCrypto_sound : plainShortCrypto.Sound where
  x25519_comm left right := by
    have hcomm : left.xor right = right.xor left :=
      Subtype.ext (zipWith_comm_of_comm UInt8.xor_comm)
    exact congrArg some hcomm
  chacha _ _ _ _ := congrArg some (FixedBytes.copy_append _ _)
  chachaWith _ _ _ _ := congrArg some (FixedBytes.copy_append _ _)

def shortHop (index : Nat) : ShortBuildHop where
  router := FixedBytes.copy 32 (List.replicate 32 (UInt8.ofNat (index + 1)))
  staticPrivate := FixedBytes.copy 32 (List.replicate 32 (UInt8.ofNat (index + 1)))
  receiveTunnelID := UInt32.ofNat (index + 1)
  options := ⟨1, 2, 0⟩
  position := UInt8.ofNat (3 - index)
  padding := List.replicate 98 0
  ephemeral := ⟨List.replicate 32 (UInt8.ofNat (index + 9)), by simp⟩
  answer := ⟨7, true, List.replicate 199 0⟩

def shortPlan (direction : BuildDirection) : ShortBuildPlan where
  direction := direction
  hops := [shortHop 0, shortHop 1, shortHop 2]
  requestMinutes := 1
  messageIDs := [1, 2, 3, 4]
  random := List.replicate 4 (FixedBytes.zero _)

def outboundPlan : ShortBuildPlan := shortPlan (.outbound ⟨List.replicate 32 8, by simp⟩ 9)

def inboundPlan : ShortBuildPlan := shortPlan (.inbound ⟨List.replicate 32 8, by simp⟩ 9)

def sampleFake : FakeRecord := ⟨0, ⟨List.replicate 32 5, by simp⟩⟩

theorem shortPlan_random (direction : BuildDirection) : ∀ hop ∈ (shortPlan direction).hops,
    shortBuildReplyPlainSize - 3 ≤ hop.answer.random.length := by
  intro hop hmem
  obtain ⟨index, -, rfl⟩ : ∃ index ∈ [0, 1, 2], shortHop index = hop := mem_map.mp hmem
  exact length_replicate.ge

theorem short_build_completes_three_hops :
    (∃ created replies, outboundPlan.startOutbound plainShortCrypto = some created ∧
      Completes plainShortCrypto outboundPlan created replies) ∧
    ∃ created replies, inboundPlan.startInbound plainShortCrypto sampleFake = some created ∧
      Completes plainShortCrypto inboundPlan created.toCreated replies ∧
        verifyFake plainShortCrypto created sampleFake replies = true := by
  have houtbound : (outboundPlan.startOutbound plainShortCrypto).any (fun created =>
      alone plainShortCrypto outboundPlan.hops created.records) = true := by
    decide +kernel
  have hinbound : (inboundPlan.startInbound plainShortCrypto sampleFake).any (fun created =>
      alone plainShortCrypto inboundPlan.hops created.records) = true := by
    decide +kernel
  constructor
  · obtain ⟨created, hcreated, halone⟩ := (Option.any_eq_true _ _).mp houtbound
    obtain ⟨replies, hcompletes⟩ := (short_build_completes plainShortCrypto_sound _
      (shortPlan_random _)).1 created hcreated halone
    exact ⟨created, replies, hcreated, hcompletes⟩
  · obtain ⟨created, hcreated, halone⟩ := (Option.any_eq_true _ _).mp hinbound
    obtain ⟨replies, hcompletes⟩ := (short_build_completes plainShortCrypto_sound _
      (shortPlan_random _)).2 sampleFake created hcreated (by decide) halone
    exact ⟨created, replies, hcreated, hcompletes⟩

end EndToEnd

end Ivnp.Tunnel
