import Ivnp.NetDb.RouterTable

/-!
The selection of the peers closest to a key (`closestInto` and `closestRoutingInto`). The
candidates come in the order of a map or of the buckets and are inserted into a sorted
prefix of the size of the destination; what is selected does not depend on the order.
-/

namespace Ivnp.NetDb

open Ivnp.Lib Ivnp.Foundation List FixedBytes

instance : LawfulBEq Hash := inferInstance

namespace TableState

def peersOf (t : TableState) (hashes : List Hash) : List RouterRef :=
  hashes.filterMap fun hash => (t.routers.lookup hash).map fun entry => entry.ref hash

/-- The buffer of `borrowSelection`, of the members of the buckets or of all routers. -/
def borrowSelection (t : TableState) (routing : Bool) (order : List Hash) : List RouterRef :=
  if routing then t.peersOf t.members else t.peersOf (t.routers.ranged order)

def borrowSelectionFloodfills (t : TableState) (order : List Hash) : List RouterRef :=
  let hashes := if t.floodfills.entries.length > 0 then t.floodfills.ranged order
    else t.routers.ranged order
  (t.peersOf hashes).filter RouterRef.floodfill

def closestOf (target : Hash) (limit : Nat) (skip : RouterRef → Bool) (buffer : List RouterRef) :
    List RouterRef :=
  buffer.foldl (fun dst candidate =>
    if skip candidate then dst
    else insertBounded (fun left right => distanceLess target left.hash right.hash) limit dst
      candidate) []

/-- `closestInto` for a destination of capacity `limit`, with the map visited in the given
order. -/
def closestInto (t : TableState) (limit : Nat) (target : Hash) (floodfillOnly : Bool)
    (excluded : List Hash) (eligible : Option (RouterRef → Bool)) (order : List Hash) :
    List RouterRef :=
  if limit = 0 then []
  else
    let buffer := if floodfillOnly then t.borrowSelectionFloodfills order
      else t.borrowSelection false order
    closestOf target limit (fun candidate =>
      candidate.hash ∈ excluded ∨ floodfillOnly ∧ ¬candidate.floodfill ∨
        eligible.any fun eligible => !eligible candidate) buffer

def closestRoutingInto (t : TableState) (limit : Nat) (target : Hash) (excludeFloodfills : Bool)
    (excluded : List Hash) : List RouterRef :=
  if limit = 0 then []
  else closestOf target limit (fun candidate =>
    candidate.hash ∈ excluded ∨ excludeFloodfills ∧ candidate.floodfill)
      (t.borrowSelection true [])

def peers (t : TableState) : List RouterRef := t.peersOf t.routers.keys

/-- The routers that `closestInto` may select. -/
def eligiblePeers (t : TableState) (floodfillOnly : Bool) (excluded : List Hash)
    (eligible : Option (RouterRef → Bool)) : List RouterRef :=
  t.peers.filter fun peer => peer.hash ∉ excluded ∧ (floodfillOnly → peer.floodfill) ∧
    ∀ f ∈ eligible, f peer

/-- The routers that `closestRoutingInto` may select. -/
def eligibleRouting (t : TableState) (excludeFloodfills : Bool) (excluded : List Hash) :
    List RouterRef :=
  t.peers.filter fun peer => peer.hash ∈ t.members ∧ peer.hash ∉ excluded ∧
    (excludeFloodfills → ¬peer.floodfill)

end TableState

theorem distanceLessBytes_iff {target left right : Bytes} (hleft : left.length = target.length)
    (hright : right.length = target.length) :
    distanceLessBytes target left right = true ↔
      beNat (List.zipWith (· ^^^ ·) target left) < beNat (List.zipWith (· ^^^ ·) target right) := by
  induction target generalizing left right with
  | nil => simp [distanceLessBytes]
  | cons byte target ih =>
    obtain ⟨first, left, rfl⟩ := exists_cons_of_length_eq_add_one hleft
    obtain ⟨second, right, rfl⟩ := exists_cons_of_length_eq_add_one hright
    rw [length_cons, length_cons, Nat.add_right_cancel_iff] at hleft hright
    have hlow := beNat_lt (zipWith (· ^^^ ·) target left)
    have hhigh := beNat_lt (zipWith (· ^^^ ·) target right)
    rw [distanceLessBytes, zipWith_cons_cons, zipWith_cons_cons, beNat_cons, beNat_cons]
    simp only [length_zipWith, hleft, hright, Nat.min_self] at hlow hhigh ⊢
    split
    next hne =>
      rw [decide_eq_true_eq, UInt8.lt_iff_toNat_lt]
      have hnat : (byte ^^^ first).toNat ≠ (byte ^^^ second).toNat :=
        fun heq => hne (UInt8.toNat_inj.mp heq)
      rcases Nat.lt_or_gt_of_ne hnat with hless | hmore
      · have := Nat.mul_le_mul_right (256 ^ target.length) (Nat.succ_le_of_lt hless)
        rw [Nat.succ_mul] at this
        omega
      · have := Nat.mul_le_mul_right (256 ^ target.length) (Nat.succ_le_of_lt hmore)
        rw [Nat.succ_mul] at this
        omega
    next heq =>
      rw [not_not.mp heq, Nat.add_lt_add_iff_left]
      exact ih hleft hright

theorem distanceLess_iff (target left right : Hash) :
    distanceLess target left right = true ↔ xorDistance target left < xorDistance target right := by
  apply distanceLessBytes_iff
  · rw [left.property, target.property]
  · rw [right.property, target.property]

theorem xorDistance_injective (target : Hash) : Function.Injective (xorDistance target) := by
  intro left right heq
  have hxor : target.xor left = target.xor right := by
    apply Subtype.ext
    have hleft := natBE_beNat (target.xor left).val
    have hright := natBE_beNat (target.xor right).val
    rw [length_val] at hleft hright
    rw [← hleft, ← hright]
    exact congrArg (natBE 32) heq
  have hcancel (peer : Hash) : (target.xor peer).xor target = peer := by
    rw [xor_comm target]
    exact xor_xor_cancel _ _
  rw [← hcancel left, hxor, hcancel]

namespace TableState

variable {t : TableState}

theorem mem_peersOf {hashes : List Hash} {peer : RouterRef} :
    peer ∈ t.peersOf hashes ↔
      peer.hash ∈ hashes ∧ ∃ entry, t.routers.lookup peer.hash = some entry ∧
        entry.ref peer.hash = peer := by
  unfold peersOf
  rw [mem_filterMap]
  constructor
  · rintro ⟨hash, hmem, hpeer⟩
    obtain ⟨entry, hentry, rfl⟩ := Option.map_eq_some_iff.mp hpeer
    exact ⟨hmem, entry, hentry, rfl⟩
  · rintro ⟨hmem, entry, hentry, hpeer⟩
    exact ⟨peer.hash, hmem, by rw [hentry, Option.map_some, hpeer]⟩

theorem nodup_hash_peersOf {hashes : List Hash} (h : hashes.Nodup) :
    ((t.peersOf hashes).map RouterRef.hash).Nodup := by
  have hsublist : ((t.peersOf hashes).map RouterRef.hash).Sublist hashes := by
    clear h
    unfold peersOf
    induction hashes with
    | nil => exact List.Sublist.refl _
    | cons hash rest ih =>
      rw [filterMap_cons]
      cases t.routers.lookup hash with
      | none => exact ih.cons hash
      | some entry => exact ih.cons_cons hash
  exact h.sublist hsublist

theorem closestOf_eq (target : Hash) (limit : Nat) (skip : RouterRef → Bool)
    (buffer : List RouterRef) :
    closestOf target limit skip buffer =
      select (fun left right => distanceLess target left.hash right.hash) limit
        (buffer.filter fun candidate => !skip candidate) := by
  rw [select, foldl_filter]
  unfold closestOf
  congr 1
  funext dst candidate
  cases skip candidate <;> rfl

theorem closestOf_smallest (target : Hash) (limit : Nat) {skip : RouterRef → Bool}
    {buffer eligible : List RouterRef} (hdistinct : (buffer.map RouterRef.hash).Nodup)
    (hnodup : eligible.Nodup) (hmem : ∀ peer, peer ∈ buffer ∧ skip peer = false ↔ peer ∈ eligible) :
    Smallest (fun peer => xorDistance target peer.hash) limit eligible
      (closestOf target limit skip buffer) := by
  have hfilter := filter_sublist (p := fun candidate => !skip candidate) (l := buffer)
  have hhashes := hdistinct.sublist (hfilter.map RouterRef.hash)
  have hperm : (buffer.filter fun candidate => !skip candidate).Perm eligible := by
    refine (perm_ext_iff_of_nodup hhashes.of_map hnodup).mpr fun peer => ?_
    rw [mem_filter, Bool.not_eq_true', hmem]
  rw [closestOf_eq]
  refine Smallest.of_perm (select_smallest ?_ ?_) hperm
  · intro left right
    exact distanceLess_iff _ left.hash right.hash
  · have hkeys := hhashes.map (xorDistance_injective target)
    rwa [map_map] at hkeys

theorem smallest_zero {key : RouterRef → Nat} (candidates : List RouterRef) :
    Smallest key 0 candidates [] := by
  refine ⟨(Nat.zero_min _).symm, nil_subset _, List.Pairwise.nil, ?_⟩
  intro _ _ _ x hx
  exact absurd hx not_mem_nil

theorem nodup_ranged {V : Type} (order : List Hash) (table : Table Hash V) :
    (table.ranged order).Nodup :=
  (Table.ranged_perm _ _).nodup_iff.mpr table.keys_nodup

theorem nodup_peers : t.peers.Nodup := (nodup_hash_peersOf t.routers.keys_nodup).of_map

/-- The floodfills in the buffer are those of the routers, whichever of the two maps was
visited. -/
theorem mem_borrowSelectionFloodfills (h : t.Consistent) (order : List Hash) (peer : RouterRef) :
    peer ∈ t.borrowSelectionFloodfills order ↔ peer ∈ t.peers ∧ peer.floodfill = true := by
  unfold borrowSelectionFloodfills peers
  rw [mem_filter, mem_peersOf, mem_peersOf]
  refine and_congr_left fun hflood => and_congr_left ?_
  rintro ⟨entry, hentry, hpeer⟩
  have hrouter : peer.hash ∈ t.routers := by
    rw [← AList.lookup_isSome, hentry]
    rfl
  have hindexed :=
    (h.indexed peer.hash).mpr ⟨entry, hentry, by rw [← hpeer] at hflood; exact hflood⟩
  refine iff_of_true ?_ hrouter
  split
  · exact Table.mem_ranged.mpr hindexed
  · exact Table.mem_ranged.mpr hrouter

variable (order : List Hash)

theorem nodup_borrowSelectionFloodfills :
    ((t.borrowSelectionFloodfills order).map RouterRef.hash).Nodup := by
  have hnodup : (if t.floodfills.entries.length > 0 then t.floodfills.ranged order
      else t.routers.ranged order).Nodup := by
    split
    · exact nodup_ranged _ t.floodfills
    · exact nodup_ranged _ t.routers
  exact (nodup_hash_peersOf hnodup).sublist (filter_sublist.map RouterRef.hash)

theorem mem_borrowSelection_all (peer : RouterRef) :
    peer ∈ t.borrowSelection false order ↔ peer ∈ t.peers := by
  change peer ∈ t.peersOf (t.routers.ranged order) ↔ peer ∈ t.peersOf t.routers.keys
  rw [mem_peersOf, mem_peersOf, Table.mem_ranged]
  exact Iff.rfl

theorem mem_borrowSelection_routing (peer : RouterRef) :
    peer ∈ t.borrowSelection true order ↔ peer ∈ t.peers ∧ peer.hash ∈ t.members := by
  change peer ∈ t.peersOf t.members ↔ peer ∈ t.peersOf t.routers.keys ∧ peer.hash ∈ t.members
  rw [mem_peersOf, mem_peersOf]
  constructor
  · rintro ⟨hmem, entry, hentry, hpeer⟩
    refine ⟨⟨?_, entry, hentry, hpeer⟩, hmem⟩
    apply AList.mem_keys.mp
    rw [← AList.lookup_isSome, hentry]
    rfl
  · rintro ⟨⟨-, hentry⟩, hmem⟩
    exact ⟨hmem, hentry⟩

theorem closestInto_smallest (h : t.Consistent) (limit : Nat) (target : Hash) (floodfillOnly : Bool)
    (excluded : List Hash) (eligible : Option (RouterRef → Bool)) (order : List Hash) :
    Smallest (fun peer => xorDistance target peer.hash) limit
      (t.eligiblePeers floodfillOnly excluded eligible)
      (t.closestInto limit target floodfillOnly excluded eligible order) := by
  have heligible (peer : RouterRef) : (eligible.any fun f => !f peer) = false ↔
      ∀ f ∈ eligible, f peer = true := by
    cases eligible <;> simp
  unfold closestInto
  split
  next hzero =>
    subst hzero
    exact smallest_zero _
  cases floodfillOnly with
  | false =>
    refine closestOf_smallest _ _ (nodup_hash_peersOf (nodup_ranged _ t.routers))
      (nodup_peers.filter _) fun peer => ?_
    rw [eligiblePeers, mem_filter, ← mem_borrowSelection_all order]
    simp [heligible, borrowSelection]
  | true =>
    refine closestOf_smallest _ _ (nodup_borrowSelectionFloodfills _)
      (nodup_peers.filter _) fun peer => ?_
    rw [eligiblePeers, mem_filter, if_pos rfl, mem_borrowSelectionFloodfills h]
    simp [heligible]
    tauto

theorem closestRoutingInto_smallest (h : t.Consistent) (limit : Nat) (target : Hash)
    (excludeFloodfills : Bool) (excluded : List Hash) :
    Smallest (fun peer => xorDistance target peer.hash) limit
      (t.eligibleRouting excludeFloodfills excluded)
      (t.closestRoutingInto limit target excludeFloodfills excluded) := by
  unfold closestRoutingInto
  split
  next hzero =>
    subst hzero
    exact smallest_zero _
  refine closestOf_smallest _ _ (nodup_hash_peersOf h.routed.nodup_members)
    (nodup_peers.filter _) fun peer => ?_
  rw [eligibleRouting, mem_borrowSelection_routing]
  cases excludeFloodfills <;> simp [and_assoc]

end TableState

/-- Both selections return the eligible peers closest to the key, as many as there are up to
the capacity, in strictly increasing distance, in whatever order the maps are visited. -/
theorem closest_peers_exact (t : RouterTable) (limit : Nat) (target : Hash) (excluded : List Hash) :
    (∀ floodfillOnly eligible order,
      Smallest (fun peer => xorDistance target peer.hash) limit
        (t.val.eligiblePeers floodfillOnly excluded eligible)
        (t.val.closestInto limit target floodfillOnly excluded eligible order)) ∧
      ∀ excludeFloodfills,
        Smallest (fun peer => xorDistance target peer.hash) limit
          (t.val.eligibleRouting excludeFloodfills excluded)
          (t.val.closestRoutingInto limit target excludeFloodfills excluded) := by
  constructor
  · intro floodfillOnly eligible order
    exact TableState.closestInto_smallest t.property _ _ _ _ _ _
  · intro excludeFloodfills
    exact TableState.closestRoutingInto_smallest t.property _ _ _ _

end Ivnp.NetDb
