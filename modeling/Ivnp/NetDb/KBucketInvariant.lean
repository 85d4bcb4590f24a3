import Ivnp.NetDb.KademliaRange

/-!
The buckets after any calls: they tile the range numbers, every member is in the bucket of its
range number, and no call panics or runs on.
-/

namespace Ivnp.NetDb

open Ivnp.Lib Ivnp.Foundation List

/-- A bucket whose members belong to it, each once, and no more than fit if it cannot be
split. -/
structure KBucket.Proper (localHash : Hash) (capacity : Int) (bucket : KBucket) : Prop where
  located : ∀ member ∈ bucket.members,
    bucket.beginRange.toNat ≤ kademliaRange localHash member ∧
      kademliaRange localHash member ≤ bucket.endRange.toNat
  nodup : bucket.members.Nodup
  terminal : bucket.beginRange = bucket.endRange → bucket.members.length ≤ capacity

structure KBucketSet.Valid (localHash : Hash) (capacity : Int) (set : KBucketSet) : Prop where
  tiles : Tiles (·.beginRange.toNat) (·.endRange.toNat) 0 set.buckets kademliaRangeCount
  proper : ∀ bucket ∈ set.buckets, bucket.Proper localHash capacity
  capacity_eq : set.capacity = capacity

variable {localHash : Hash} {capacity : Int} {set : KBucketSet} {before after : List KBucket}
  {bucket original : KBucket}

namespace KBucketSet

theorem bucketIndexLoop_eq {buckets : List KBucket} {start stop : Nat}
    (htiles : Tiles (·.beginRange.toNat) (·.endRange.toNat) start buckets stop)
    {rangeNumber index : Nat} (hindex : buckets[index]? = some bucket)
    (hbegin : bucket.beginRange.toNat ≤ rangeNumber) (hend : rangeNumber ≤ bucket.endRange.toNat)
    {turns low high : Nat} (hlow : low ≤ index) (hhigh : index < high)
    (hlength : high ≤ buckets.length) (hturns : high - low < turns) :
    bucketIndexLoop buckets rangeNumber turns low high = some index := by
  induction turns generalizing low high with
  | zero => omega
  | succ turns ih =>
    have hmiddle : low + (high - low) / 2 < buckets.length := by omega
    simp only [bucketIndexLoop, if_pos (hlow.trans_lt hhigh), getElem?_eq_getElem hmiddle]
    have hfound := getElem?_eq_getElem hmiddle
    generalize buckets[low + (high - low) / 2] = probe at hfound ⊢
    have hprobe := (htiles.bounds (mem_of_getElem? hfound)).2.1
    rcases lt_trichotomy (low + (high - low) / 2) index with hbefore | hsame | hafter
    · have hapart := htiles.last_lt_first hfound hindex hbefore
      rw [if_neg (by omega), if_pos (by omega)]
      exact ih (by omega) hhigh hlength (by omega)
    · rw [hsame, hindex] at hfound
      cases hfound
      rw [if_neg (by omega), if_neg (by omega), hsame]
    · have hapart := htiles.last_lt_first hindex hfound hafter
      rw [if_pos (by omega)]
      exact ih hlow hafter (by omega) (by omega)

theorem Valid.bucketIndex (h : set.Valid localHash capacity) {rangeNumber : Nat}
    (hrange : rangeNumber < kademliaRangeCount) :
    ∃ (before after : List KBucket) (bucket : KBucket),
      set.buckets = before ++ bucket :: after ∧
      set.bucketIndex rangeNumber = some before.length ∧
      bucket.beginRange.toNat ≤ rangeNumber ∧ rangeNumber ≤ bucket.endRange.toNat := by
  obtain ⟨index, bucket, hindex, hbegin, hend⟩ := h.tiles.exists_mem (Nat.zero_le _) hrange
  obtain ⟨hlength, hbucket⟩ := List.getElem?_eq_some_iff.mp hindex
  refine ⟨set.buckets.take index, set.buckets.drop (index + 1), bucket, ?_, ?_, hbegin, hend⟩
  · rw [← hbucket, getElem_cons_drop, take_append_drop]
  · rw [length_take, min_eq_left hlength.le]
    exact bucketIndexLoop_eq h.tiles hindex hbegin hend (Nat.zero_le _) hlength le_rfl
      (Nat.lt_succ_self _)

theorem Valid.replace (h : set.Valid localHash capacity)
    (hbuckets : set.buckets = before ++ bucket :: after) {changed : KBucket}
    (hproper : changed.Proper localHash capacity) (hbegin : changed.beginRange = bucket.beginRange)
    (hend : changed.endRange = bucket.endRange) :
    Valid localHash capacity { set with buckets := before ++ changed :: after } where
  tiles := by
    have htiles := h.tiles
    rw [hbuckets] at htiles
    have hordered := (htiles.bounds (mem_append_right _ mem_cons_self)).2.1
    change Tiles _ _ _ (before ++ ([changed] ++ after)) _
    apply htiles.replace
    simp only [Tiles, hbegin, hend]
    exact ⟨trivial, hordered, trivial⟩
  proper := by
    intro other hmem
    have hall := h.proper
    rw [hbuckets] at hall
    rcases mem_append.mp hmem with hearlier | hlater
    · exact hall _ (mem_append_left _ hearlier)
    · rcases mem_cons.mp hlater with rfl | hlater
      · exact hproper
      · exact hall _ (mem_append_right _ (mem_cons_of_mem _ hlater))
  capacity_eq := h.capacity_eq

theorem redistribute_ranges (set : KBucketSet) (bucket : KBucket) (member : Hash) :
    (set.redistribute bucket member).beginRange = bucket.beginRange ∧
      (set.redistribute bucket member).endRange = bucket.endRange := by
  unfold redistribute
  split
  · exact ⟨rfl, rfl⟩
  · exact ⟨rfl, rfl⟩

theorem redistribute_members (set : KBucketSet) (bucket : KBucket) (member : Hash) :
    List.Sublist (set.redistribute bucket member).members (bucket.members ++ [member]) := by
  unfold redistribute
  split
  · exact sublist_append_left _ _
  · exact List.Sublist.refl _

theorem redistribute_terminal {bucket : KBucket}
    (h : bucket.beginRange = bucket.endRange → bucket.members.length ≤ set.capacity) (member : Hash)
    (hterminal : bucket.beginRange = bucket.endRange) :
    (set.redistribute bucket member).members.length ≤ set.capacity := by
  unfold redistribute
  split
  · exact h hterminal
  next hspace =>
  rw [not_and] at hspace
  have := hspace hterminal
  simp only [length_append, length_singleton]
  omega

/-- What a half has after some of the members: its range, a part of those that belong to it,
and no more than fit. -/
structure Collects (set : KBucketSet) (start half : KBucket) (members : List Hash) : Prop where
  beginRange : half.beginRange = start.beginRange
  endRange : half.endRange = start.endRange
  members : List.Sublist half.members (start.members ++ members)
  terminal : start.beginRange = start.endRange → half.members.length ≤ set.capacity

theorem Collects.nil (hcapacity : 0 ≤ set.capacity) {start : KBucket} (hstart : start.members = []) :
    set.Collects start start [] where
  beginRange := rfl
  endRange := rfl
  members := sublist_append_left _ _
  terminal := fun _ => by rw [hstart]; exact hcapacity

theorem Collects.redistribute {start half : KBucket} {members : List Hash}
    (h : set.Collects start half members) (member : Hash) :
    set.Collects start (set.redistribute half member) (members ++ [member]) where
  beginRange := (set.redistribute_ranges half _).1.trans h.beginRange
  endRange := (set.redistribute_ranges half _).2.trans h.endRange
  members := by
    rw [← append_assoc]
    exact (set.redistribute_members half _).trans (h.members.append_right [member])
  terminal := by
    intro hterminal
    apply redistribute_terminal (fun _ => h.terminal hterminal)
    rw [h.beginRange, h.endRange, hterminal]

theorem divide_collects {below : Hash → Prop} [DecidablePred below] {first second : KBucket}
    (members : List Hash) {done : List Hash} {halves : KBucket × KBucket}
    (hfirst : set.Collects first halves.1 (done.filter below))
    (hsecond : set.Collects second halves.2 (done.filter (¬below ·))) :
    let divided := members.foldl (fun halves member =>
      if below member then (set.redistribute halves.1 member, halves.2)
      else (halves.1, set.redistribute halves.2 member)) halves
    set.Collects first divided.1 ((done ++ members).filter below) ∧
      set.Collects second divided.2 ((done ++ members).filter (¬below ·)) := by
  induction members generalizing done halves with
  | nil =>
    rw [append_nil]
    exact ⟨hfirst, hsecond⟩
  | cons member rest ih =>
    rw [append_cons]
    apply ih
    · by_cases hbelow : below member
      · simp only [filter_append, filter_cons, hbelow, decide_true,
          if_true, filter_nil]
        exact hfirst.redistribute _
      · simp only [filter_append, filter_cons, hbelow, decide_false,
          Bool.false_eq_true, if_false, filter_nil, append_nil]
        exact hfirst
    · by_cases hbelow : below member
      · simp only [filter_append, filter_cons, hbelow, not_true,
          decide_false, Bool.false_eq_true, if_false, filter_nil, append_nil]
        exact hsecond
      · simp only [filter_append, filter_cons, hbelow, not_false_eq_true,
          decide_true, if_true, filter_nil]
        exact hsecond.redistribute _

theorem secondStart_bounds (h : original.beginRange.toNat < original.endRange.toNat) :
    original.beginRange.toNat < secondStart original ∧
      secondStart original ≤ original.endRange.toNat := by
  unfold secondStart
  dsimp only
  split
  next hselected =>
    have hfactor : kademliaBFactor = 8 := rfl
    omega
  · omega

theorem divide_proper (hcapacity : set.capacity = capacity) (hpos : 0 ≤ capacity)
    (hproper : original.Proper localHash capacity)
    (hless : original.beginRange.toNat < original.endRange.toNat) :
    let halves := set.divide localHash original
    halves.1.beginRange = original.beginRange ∧
      halves.1.endRange.toNat + 1 = halves.2.beginRange.toNat ∧
      halves.2.endRange = original.endRange ∧
      original.beginRange.toNat < halves.2.beginRange.toNat ∧
      halves.2.beginRange.toNat ≤ original.endRange.toNat ∧
      halves.1.Proper localHash capacity ∧ halves.2.Proper localHash capacity := by
  subst hcapacity
  obtain ⟨hstart, hstop⟩ := secondStart_bounds hless
  have hwidth : original.endRange.toNat < UInt16.size := original.endRange.toNat_lt
  have hlow : (UInt16.ofNat (secondStart original - 1)).toNat = secondStart original - 1 :=
    UInt16.toNat_ofNat_of_lt' (by omega)
  have hhigh : (UInt16.ofNat (secondStart original)).toNat = secondStart original :=
    UInt16.toNat_ofNat_of_lt' (by omega)
  obtain ⟨hfirst, hsecond⟩ := @divide_collects set
    (fun member => kademliaRange localHash member < secondStart original) _
    ⟨original.beginRange, UInt16.ofNat (secondStart original - 1), [], original.lastChanged⟩
    ⟨UInt16.ofNat (secondStart original), original.endRange, [], original.lastChanged⟩
    original.members [] (_, _) (Collects.nil hpos rfl) (Collects.nil hpos rfl)
  change set.Collects _ (set.divide localHash original).1 _ at hfirst
  change set.Collects _ (set.divide localHash original).2 _ at hsecond
  have hbegin := hsecond.beginRange
  have hend := hfirst.endRange
  dsimp only at hbegin hend ⊢
  refine ⟨hfirst.beginRange, ?_, hsecond.endRange, ?_, ?_, ?_, ?_⟩
  · rw [hbegin, hend]
    omega
  · rwa [hbegin, hhigh]
  · rwa [hbegin, hhigh]
  · refine ⟨fun member hmem => ?_, hfirst.members.nodup (hproper.nodup.filter _), fun hterminal => ?_⟩
    · obtain ⟨hmember, hbelow⟩ := mem_filter.mp (hfirst.members.subset hmem)
      have hlocated := hproper.located _ hmember
      rw [decide_eq_true_eq] at hbelow
      rw [hfirst.beginRange, hend]
      exact ⟨hlocated.1, by omega⟩
    · apply hfirst.terminal
      rwa [hfirst.beginRange, hend] at hterminal
  · refine ⟨fun member hmem => ?_, hsecond.members.nodup (hproper.nodup.filter _),
      fun hterminal => ?_⟩
    · obtain ⟨hmember, habove⟩ := mem_filter.mp (hsecond.members.subset hmem)
      have hlocated := hproper.located _ hmember
      rw [decide_eq_true_eq] at habove
      rw [hsecond.endRange, hbegin]
      exact ⟨by omega, hlocated.2⟩
    · apply hsecond.terminal
      rwa [hsecond.endRange, hbegin] at hterminal

theorem getElem?_middle (before after : List KBucket) (bucket : KBucket) :
    (before ++ bucket :: after)[before.length]? = some bucket := by
  rw [getElem?_append_right le_rfl, Nat.sub_self, getElem?_cons_zero]

variable (h : set.Valid localHash capacity)
  (hpos : 0 ≤ capacity)
  (hbuckets : set.buckets = before ++ original :: after)
include h hpos hbuckets

theorem Valid.divide (hless : original.beginRange.toNat < original.endRange.toNat) :
    Valid localHash capacity { set with buckets := before ++ (set.divide localHash original).1 ::
      (set.divide localHash original).2 :: after } := by
  have htiles := h.tiles
  have hall := h.proper
  rw [hbuckets] at htiles hall
  obtain ⟨hbegin, hnext, hend, hstart, hstop, hfirst, hsecond⟩ :=
    divide_proper h.capacity_eq hpos (hall _ (by simp)) hless
  refine ⟨?_, ?_, h.capacity_eq⟩
  · change Tiles _ _ _ (before ++ ([(set.divide localHash original).1,
      (set.divide localHash original).2] ++ after)) _
    apply htiles.replace
    simp only [Tiles, hbegin, hend]
    exact ⟨trivial, by omega, hnext.symm, hstop, trivial⟩
  · intro bucket hmem
    simp only [mem_append, mem_cons] at hmem
    rcases hmem with hbefore | rfl | rfl | hafter
    · exact hall _ (mem_append_left _ hbefore)
    · exact hfirst
    · exact hsecond
    · exact hall _ (mem_append_right _ (mem_cons_of_mem _ hafter))

/-- The loop goes on with the first half only, which is smaller, so it ends. -/
theorem Valid.splitLoop {turns : Nat}
    (hturns : original.endRange.toNat - original.beginRange.toNat < turns) :
    ∃ next, splitLoop localHash before.length turns set = some next ∧
      next.Valid localHash capacity := by
  induction turns generalizing set original after with
  | zero => exact absurd hturns (Nat.not_lt_zero _)
  | succ turns ih =>
    have hfound : set.buckets[before.length]? = some original := by rw [hbuckets, getElem?_middle]
    simp only [KBucketSet.splitLoop, hfound]
    by_cases hdone : original.beginRange = original.endRange ∨
        original.members.length ≤ set.capacity
    · rw [if_pos hdone]
      exact ⟨set, rfl, h⟩
    rw [if_neg hdone]
    have hordered := (h.tiles.bounds (mem_of_getElem? hfound)).2.1
    have hne : original.beginRange.toNat ≠ original.endRange.toNat := fun hsame =>
      hdone (.inl (UInt16.toNat_inj.mp hsame))
    have hless := lt_of_le_of_ne hordered hne
    obtain ⟨hbegin, hnext, -, hstart, hstop, -⟩ := divide_proper h.capacity_eq hpos
      (h.proper _ (mem_of_getElem? hfound)) hless
    have hdrop : set.buckets.drop (before.length + 1) = after := by
      rw [hbuckets, ← drop_drop, drop_left, drop_one, tail_cons]
    have htake : set.buckets.take before.length = before := by rw [hbuckets, take_left]
    rw [hdrop, htake]
    apply ih (h.divide hpos hbuckets hless) rfl
    rw [hbegin]
    omega

omit h hpos hbuckets

section Calls

variable {peer : Hash}

/-- Where a call puts its hash: the range number is that of the local hash, or the search
finds the bucket of it. -/
theorem Valid.find (h : set.Valid localHash capacity) (peer : Hash) :
    kademliaRange localHash peer < 0 ∨
      ∃ (before after : List KBucket) (bucket : KBucket),
        set.buckets = before ++ bucket :: after ∧
        set.bucketIndex (kademliaRange localHash peer) = some before.length ∧
        set.buckets[before.length]? = some bucket ∧ 0 ≤ kademliaRange localHash peer ∧
        bucket.beginRange.toNat ≤ kademliaRange localHash peer ∧
        kademliaRange localHash peer ≤ bucket.endRange.toNat := by
  rcases kademliaRange_cases localHash peer with hself | ⟨rangeNumber, hrange, hcount⟩
  · omega
  · right
    obtain ⟨before, after, bucket, hbuckets, hindex, hbegin, hend⟩ := h.bucketIndex hcount
    rw [hrange]
    refine ⟨before, after, bucket, hbuckets, hindex, ?_, by omega, by omega, by omega⟩
    rw [hbuckets, getElem?_middle]

theorem set_middle (before after : List KBucket) (bucket changed : KBucket) :
    (before ++ bucket :: after).set before.length changed = before ++ changed :: after := by
  rw [set_append_right _ _ le_rfl, Nat.sub_self, set_cons_zero]

theorem Valid.add (h : set.Valid localHash capacity) (hpos : 0 ≤ capacity) (peer : Hash)
    (now : UInt64) :
    ∃ result, set.add localHash peer now = some result ∧
      result.1.Valid localHash capacity := by
  unfold KBucketSet.add
  rcases h.find peer with hself | ⟨before, after, bucket, hbuckets, hindex, hfound, hrange, hin⟩
  · rw [if_pos hself]
    exact ⟨_, rfl, h⟩
  · have hproper := h.proper _ (mem_of_getElem? hfound)
    have hset : ∀ changed, set.buckets.set before.length changed = before ++ changed :: after := by
      intro changed
      rw [hbuckets, set_middle]
    simp only [if_neg (not_lt.mpr hrange), hindex, hfound, hset]
    by_cases hmem : peer ∈ bucket.members
    · rw [if_pos hmem]
      exact ⟨_, rfl, h.replace hbuckets ⟨hproper.located, hproper.nodup, hproper.terminal⟩ rfl rfl⟩
    rw [if_neg hmem]
    by_cases hfull : bucket.beginRange = bucket.endRange ∧ set.capacity ≤ bucket.members.length
    · rw [if_pos hfull]
      exact ⟨_, rfl, h⟩
    rw [if_neg hfull]
    have hgrows : KBucket.Proper localHash capacity
        { bucket with members := bucket.members ++ [peer], lastChanged := now } := by
      refine ⟨?_, ?_, ?_⟩
      · exact forall_mem_append.mpr ⟨hproper.located, forall_mem_singleton.mpr hin⟩
      · rw [nodup_append]
        refine ⟨hproper.nodup, nodup_singleton _, ?_⟩
        rintro member hold _ hnew rfl
        rw [mem_singleton.mp hnew] at hold
        exact hmem hold
      · intro hterminal
        rw [not_and, h.capacity_eq] at hfull
        have := hfull hterminal
        simp only [length_append, length_singleton]
        omega
    have hgrown := h.replace hbuckets hgrows rfl rfl
    split
    · have hbounds := h.tiles.bounds (mem_of_getElem? hfound)
      have hwidth : bucket.endRange.toNat - bucket.beginRange.toNat < kademliaRangeCount := by omega
      obtain ⟨next, hnext, hvalid⟩ := hgrown.splitLoop hpos rfl hwidth
      rw [KBucketSet.split, hnext]
      exact ⟨_, rfl, hvalid⟩
    · exact ⟨_, rfl, hgrown⟩

theorem Valid.remove (h : set.Valid localHash capacity) (peer : Hash) :
    ∃ result, set.remove localHash peer = some result ∧ result.1.Valid localHash capacity := by
  unfold KBucketSet.remove
  rcases h.find peer with hself | ⟨before, after, bucket, hbuckets, hindex, hfound, hrange, -⟩
  · rw [if_pos hself]
    exact ⟨_, rfl, h⟩
  · have hproper := h.proper _ (mem_of_getElem? hfound)
    simp only [if_neg (not_lt.mpr hrange), hindex, hfound]
    split
    · have hshrinks : KBucket.Proper localHash capacity
          { bucket with members := bucket.members.erase peer } := by
        refine ⟨fun member hmem => hproper.located _ (mem_of_mem_erase hmem),
          hproper.nodup.erase _, fun hterminal => ?_⟩
        have hlength := hproper.terminal hterminal
        have hshorter := length_erase_le (a := peer) (l := bucket.members)
        dsimp only
        omega
      refine ⟨_, rfl, ?_⟩
      rw [hbuckets, set_middle]
      exact h.replace hbuckets hshrinks rfl rfl
    · exact ⟨_, rfl, h⟩

end Calls

theorem valid_new (localHash : Hash) (capacity : Int) :
    (newKBucketSet capacity).Valid localHash (newKBucketSet capacity).capacity where
  tiles := ⟨rfl, Nat.zero_le _, rfl⟩
  proper := by
    intro bucket hmem
    obtain rfl := mem_singleton.mp hmem
    exact ⟨forall_mem_nil _, nodup_nil, fun h => absurd h (by decide)⟩
  capacity_eq := rfl

theorem new_capacity_pos (capacity : Int) : 0 ≤ (newKBucketSet capacity).capacity := by
  unfold newKBucketSet defaultBucketCapacity
  dsimp only
  split <;> omega

/-- Every call returns, and the buckets stay valid. -/
theorem valid_after (capacity : Int) (localHash : Hash) (calls : List KBucketCall) :
    ∃ set, KBucketSet.after capacity localHash calls = some set ∧
      set.Valid localHash (newKBucketSet capacity).capacity := by
  apply run_preserves (I := fun state : Option KBucketSet => ∃ set, state = some set ∧
    set.Valid localHash (newKBucketSet capacity).capacity)
  · rintro state call ⟨set, rfl, hvalid⟩
    have hcall : ∃ result, set.call localHash call = some result ∧
        result.1.Valid localHash (newKBucketSet capacity).capacity := by
      cases call with
      | add peer now => exact hvalid.add (new_capacity_pos _) _ _
      | remove peer => exact hvalid.remove _
    obtain ⟨result, hresult, hnext⟩ := hcall
    exact ⟨result.1, by rw [Option.bind_some, hresult, Option.map_some], hnext⟩
  · exact ⟨_, rfl, valid_new _ _⟩

section Consequences

variable (h : set.Valid localHash capacity)
include h

theorem Valid.pairwise_range :
    set.buckets.Pairwise fun earlier later => ∀ near ∈ earlier.members, ∀ far ∈ later.members,
      kademliaRange localHash near < kademliaRange localHash far := by
  refine h.tiles.pairwise.imp_of_mem ?_
  intro earlier later hearlier hlater hless near hnear far hfar
  have hnearRange := (h.proper _ hearlier).located near hnear
  have hfarRange := (h.proper _ hlater).located far hfar
  omega

theorem Valid.nodup_members : (set.buckets.flatMap (·.members)).Nodup := by
  rw [nodup_flatMap]
  refine ⟨fun bucket hmem => (h.proper _ hmem).nodup, h.pairwise_range.imp ?_⟩
  intro earlier later hrange member hearlier hlater
  exact lt_irrefl _ (hrange _ hearlier _ hlater)

theorem Valid.local_not_mem : localHash ∉ set.buckets.flatMap (·.members) := by
  intro hmem
  obtain ⟨bucket, hbucket, hmember⟩ := mem_flatMap.mp hmem
  have hlocated := (h.proper _ hbucket).located localHash hmember
  rw [kademliaRange_self] at hlocated
  omega

end Consequences

end KBucketSet

/-- The buckets after any calls of `add` and `remove`, and the order of the range numbers. -/
theorem kBucketSet_tiles_and_orders (capacity : Int) (localHash : Hash) (calls : List KBucketCall) :
    ∃ set, KBucketSet.after capacity localHash calls = some set ∧
      Tiles (·.beginRange.toNat) (·.endRange.toNat) 0 set.buckets 2048 ∧
      (∀ bucket ∈ set.buckets, ∀ member ∈ bucket.members,
        bucket.beginRange.toNat ≤ kademliaRange localHash member ∧
          kademliaRange localHash member ≤ bucket.endRange.toNat) ∧
      (set.buckets.flatMap (·.members)).Nodup ∧
      localHash ∉ set.buckets.flatMap (·.members) ∧
      (∀ bucket ∈ set.buckets, bucket.beginRange = bucket.endRange →
        bucket.members.length ≤ (newKBucketSet capacity).capacity) ∧
      (∀ peer, 0 ≤ kademliaRange localHash peer →
        ∃ index bucket, set.bucketIndex (kademliaRange localHash peer) = some index ∧
          set.buckets[index]? = some bucket ∧
          bucket.beginRange.toNat ≤ kademliaRange localHash peer ∧
          kademliaRange localHash peer ≤ bucket.endRange.toNat) ∧
      (∀ peer other, xorDistance localHash peer ≤ xorDistance localHash other →
        kademliaRange localHash peer ≤ kademliaRange localHash other) ∧
      set.buckets.Pairwise fun earlier later =>
        ∀ near ∈ earlier.members, ∀ far ∈ later.members,
          xorDistance localHash near ≤ xorDistance localHash far := by
  obtain ⟨set, hafter, hvalid⟩ := KBucketSet.valid_after _ _ _
  refine ⟨set, hafter, hvalid.tiles, fun bucket hmem => (hvalid.proper _ hmem).located,
    hvalid.nodup_members, hvalid.local_not_mem,
    fun bucket hmem => (hvalid.proper _ hmem).terminal, ?_,
    fun peer other => kademliaRange_mono, hvalid.pairwise_range.imp ?_⟩
  · intro peer hrange
    rcases hvalid.find peer with hself | ⟨before, after, bucket, -, hindex, hfound, -, hin⟩
    · omega
    · exact ⟨before.length, bucket, hindex, hfound, hin⟩
  · intro earlier later hrange near hnear far hfar
    by_contra hfarther
    have := kademliaRange_mono (not_le.mp hfarther).le
    have := hrange _ hnear _ hfar
    omega

end Ivnp.NetDb
