import Ivnp.Router.ReplayFilter

/-!
No false negatives of the router's replay filter. A recorded message stays in
its bucket for the four epochs after the one it was recorded in, and the
accepted window of 240 seconds never reaches a fifth.
-/

namespace Ivnp.Router

open Ivnp.Lib List Function

theorem later_by_iff (first second gap : UInt64) :
    first < second ∧ second - first > gap ↔ first.toNat + gap.toNat < second.toNat := by
  rw [UInt64.lt_iff_toNat_lt, gt_iff_lt, UInt64.lt_iff_toNat_lt]
  constructor
  · rintro ⟨hlt, hgap⟩
    rw [UInt64.toNat_sub_of_le _ _ (UInt64.le_iff_toNat_le.mpr (by omega))] at hgap
    omega
  · intro h
    rw [UInt64.toNat_sub_of_le _ _ (UInt64.le_iff_toNat_le.mpr (by omega))]
    omega

theorem validateI2NPExpiration_ok_iff (expiration nowMillis : UInt64) :
    validateI2NPExpiration expiration nowMillis = .ok () ↔
      nowMillis.toNat ≤ expiration.toNat + 60000 ∧
        expiration.toNat ≤ nowMillis.toNat + 180000 := by
  have hexpired : expiredI2NP expiration nowMillis = true ↔
      expiration.toNat + 60000 < nowMillis.toNat := by
    rw [expiredI2NP, decide_eq_true_eq]
    exact later_by_iff _ _ i2npMessageClockSkewMillis
  have hlate : futureI2NP expiration nowMillis = true ↔
      nowMillis.toNat + 180000 < expiration.toNat := by
    rw [futureI2NP, decide_eq_true_eq]
    exact later_by_iff _ _ i2npMessageMaxFutureMillis
  rw [validateI2NPExpiration]
  by_cases h1 : expiredI2NP expiration nowMillis = true
  · rw [if_pos h1]
    rw [hexpired] at h1
    simp
    omega
  · rw [if_neg h1]
    rw [hexpired] at h1
    by_cases h2 : futureI2NP expiration nowMillis = true
    · rw [if_pos h2]
      rw [hlate] at h2
      simp
      omega
    · rw [if_neg h2]
      rw [hlate] at h2
      simp
      omega

@[simp] theorem replayBucketAdd_length (bucket : List UInt64) (first step : UInt64) :
    (replayBucketAdd bucket first step).length = bucket.length := by
  simp [replayBucketAdd]

variable {nowMillis : UInt64} {bucket : List UInt64}

theorem replayBucketContains_add_of_contains {first step : UInt64}
    (h : replayBucketContains bucket first step = true) (first' step' : UInt64) :
    replayBucketContains (replayBucketAdd bucket first' step') first step = true := by
  rw [replayBucketContains, all_eq_true] at h ⊢
  rw [replayBucketAdd_length]
  exact fun bit hmem => hasBit_setBits _ _ _ (h _ hmem)

theorem replayBucketContains_add_self (hpos : 0 < bucket.length)
    (hsmall : bucket.length ≤ replayFilterWords) (first step : UInt64) :
    replayBucketContains (replayBucketAdd bucket first step) first step = true := by
  rw [replayBucketContains, all_eq_true, replayBucketAdd_length]
  refine hasBit_setBits_mem _ _ ?_
  intro bit hmem
  obtain ⟨index, -, rfl⟩ := mem_map.mp hmem
  have hwords : replayFilterWords = 4096 := rfl
  have hbits : (UInt64.ofNat (bucket.length * 64)).toNat = bucket.length * 64 := by
    rw [UInt64.toNat_ofNat', Nat.mod_eq_of_lt (by omega)]
  rw [UInt64.toNat_div, UInt64.toNat_mod, hbits]
  exact Nat.div_lt_of_lt_mul (by rw [Nat.mul_comm]; exact Nat.mod_lt _ (by omega))

section Buckets

variable (buckets : Fin replayBucketCount → List UInt64)

theorem bucketIndex_val (epoch : UInt64) : (bucketIndex epoch).val = epoch.toNat % 5 := by
  exact Nat.mod_mod _ _

theorem clearBucket_length (index other : Fin replayBucketCount) :
    (clearBucket buckets index other).length = (buckets other).length := by
  rw [clearBucket, update_apply]
  split
  · next h => rw [h, length_replicate]
  · rfl

theorem clearEpochs_length (epoch : UInt64) (elapsed : Nat) (index : Fin replayBucketCount) :
    (clearEpochs buckets epoch elapsed index).length = (buckets index).length := by
  induction elapsed with
  | zero => rfl
  | succ elapsed ih =>
    rw [clearEpochs, range_succ, foldl_append, foldl_cons, foldl_nil, clearBucket_length]
    exact ih

theorem clearEpochs_apply (epoch : UInt64) (elapsed : Nat) (index : Fin replayBucketCount)
    (h : ∀ step < elapsed, bucketIndex (epoch + UInt64.ofNat (step + 1)) ≠ index) :
    clearEpochs buckets epoch elapsed index = buckets index := by
  induction elapsed with
  | zero => rfl
  | succ elapsed ih =>
    rw [clearEpochs, range_succ, foldl_append, foldl_cons, foldl_nil,
      clearBucket, update_of_ne (h _ (by omega)).symm]
    exact ih fun step hlt => h _ (by omega)

end Buckets

namespace ReplayShard

/-- The epoch a time lies in. -/
def epochOf (nowMillis : UInt64) : Nat := nowMillis.toNat / 60000

/-- The invariant of a shard: its buckets have the configured size and
`current` is the bucket of its epoch. -/
structure WellFormed (words : Nat) (shard : ReplayShard) : Prop where
  length (index : Fin replayBucketCount) : (shard.buckets index).length = words
  current : shard.started = true → shard.current.toNat = shard.epoch.toNat % 5

private theorem toNat_epoch (nowMillis : UInt64) :
    (nowMillis / replayBucketDurationMillis).toNat = epochOf nowMillis := by
  rfl

private theorem toNat_current (epoch : UInt64) :
    (epoch % UInt64.ofNat replayBucketCount).toUInt8.toNat = epoch.toNat % 5 := by
  have hcount : (UInt64.ofNat replayBucketCount).toNat = 5 := rfl
  rw [UInt64.toNat_toUInt8, UInt64.toNat_mod, hcount]
  omega

/-- The buckets that moving to a later epoch clears are those of the epochs in
between and of the new one, so a bucket of the last five epochs survives. -/
private theorem cleared_apply (shard : ReplayShard) (epoch : UInt64)
    (hlater : shard.epoch.toNat < epoch.toNat) (index : Fin replayBucketCount) (kept : Nat)
    (hkept : kept ≤ shard.epoch.toNat) (hindex : index.val = kept % 5)
    (hrecent : epoch.toNat < kept + 5) :
    clearEpochs shard.buckets shard.epoch (epoch - shard.epoch).toNat index =
      shard.buckets index := by
  have helapsed : (epoch - shard.epoch).toNat = epoch.toNat - shard.epoch.toNat :=
    UInt64.toNat_sub_of_le _ _ (UInt64.le_iff_toNat_le.mpr (by omega))
  have hlt := epoch.toNat_lt
  refine clearEpochs_apply _ _ _ _ ?_
  intro step hstep heq
  have hval := congrArg Fin.val heq
  have hsum : (shard.epoch + UInt64.ofNat (step + 1)).toNat = shard.epoch.toNat + (step + 1) := by
    rw [UInt64.toNat_add, UInt64.toNat_ofNat', Nat.mod_eq_of_lt (b := 2 ^ 64) (by omega),
      Nat.mod_eq_of_lt (by omega)]
  rw [bucketIndex_val] at hval
  omega

/-- What `advance` does: it moves to the epoch of the current time unless the
shard is already there, and clears no bucket of the last five epochs. -/
theorem advance_cases (shard : ReplayShard) (nowMillis : UInt64) :
    (shard.advance nowMillis).started = true ∧
    ((shard.started = false ∧ (shard.advance nowMillis).epoch.toNat = epochOf nowMillis) ∨
      (shard.started = true ∧
        (shard.advance nowMillis).epoch.toNat = max shard.epoch.toNat (epochOf nowMillis) ∧
        ∀ index : Fin replayBucketCount, ∀ kept ≤ shard.epoch.toNat, index.val = kept % 5 →
          (shard.advance nowMillis).epoch.toNat < kept + 5 →
          (shard.advance nowMillis).buckets index = shard.buckets index)) := by
  cases hstarted : shard.started with
  | false =>
    have hnext : shard.advance nowMillis =
        { shard with
          epoch := nowMillis / replayBucketDurationMillis
          current := (nowMillis / replayBucketDurationMillis %
            UInt64.ofNat replayBucketCount).toUInt8
          started := true } := if_pos hstarted
    rw [hnext]
    exact ⟨rfl, Or.inl ⟨rfl, toNat_epoch _⟩⟩
  | true =>
    have hold : ¬ shard.started = false := by simp [hstarted]
    by_cases hle : nowMillis / replayBucketDurationMillis ≤ shard.epoch
    · have hnext : shard.advance nowMillis = shard := (if_neg hold).trans (if_pos hle)
      rw [UInt64.le_iff_toNat_le, toNat_epoch] at hle
      rw [hnext]
      exact ⟨hstarted, Or.inr ⟨rfl, by omega, fun _ _ _ _ _ => rfl⟩⟩
    · have hnext : shard.advance nowMillis = _ := (if_neg hold).trans (if_neg hle)
      rw [UInt64.le_iff_toNat_le, toNat_epoch] at hle
      rw [hnext]
      refine ⟨hstarted, Or.inr ⟨rfl, ?_, ?_⟩⟩
      · rw [toNat_epoch]
        omega
      · intro index kept hkept hindex hrecent
        dsimp only at hrecent ⊢
        rw [if_neg]
        · refine cleared_apply _ _ ?_ _ _ hkept hindex hrecent
          rw [toNat_epoch]
          omega
        · rw [toNat_epoch] at hrecent
          rw [ge_iff_le, UInt64.le_iff_toNat_le,
            UInt64.toNat_sub_of_le _ _ (UInt64.le_iff_toNat_le.mpr (by rw [toNat_epoch]; omega)),
            toNat_epoch, show (UInt64.ofNat replayBucketCount).toNat = 5 from rfl]
          omega

variable {words : Nat} {shard : ReplayShard}

theorem advance_wellFormed (h : shard.WellFormed words) (nowMillis : UInt64) :
    (shard.advance nowMillis).WellFormed words := by
  rw [advance]
  dsimp only
  split
  · exact ⟨h.length, fun _ => toNat_current _⟩
  split
  · exact h
  refine ⟨fun index => ?_, fun _ => toNat_current _⟩
  split
  · rw [length_replicate, h.length]
  · rw [clearEpochs_length, h.length]

theorem seen_cases (shard : ReplayShard) (first step nowMillis : UInt64) :
    ((∃ index, replayBucketContains ((shard.advance nowMillis).buckets index) first step = true) ∧
        shard.seen first step nowMillis = (shard.advance nowMillis, true)) ∨
      ((¬ ∃ index,
          replayBucketContains ((shard.advance nowMillis).buckets index) first step = true) ∧
        ∃ current : Fin replayBucketCount,
        current = Fin.ofNat replayBucketCount (shard.advance nowMillis).current.toNat ∧
        shard.seen first step nowMillis =
          ({ shard.advance nowMillis with
             buckets := Function.update (shard.advance nowMillis).buckets current
               (replayBucketAdd ((shard.advance nowMillis).buckets current) first step) },
           false)) := by
  by_cases h : ∃ index,
      replayBucketContains ((shard.advance nowMillis).buckets index) first step = true
  · exact Or.inl ⟨h, if_pos h⟩
  · exact Or.inr ⟨h, _, rfl, if_neg h⟩

theorem seen_epoch (shard : ReplayShard) (first step nowMillis : UInt64) :
    (shard.seen first step nowMillis).1.started = true ∧
      (shard.seen first step nowMillis).1.epoch = (shard.advance nowMillis).epoch := by
  have hstarted := (shard.advance_cases nowMillis).1
  obtain ⟨-, h⟩ | ⟨-, current, -, h⟩ := shard.seen_cases _ _ _ <;> rw [h] <;> exact ⟨hstarted, rfl⟩

theorem seen_wellFormed (h : shard.WellFormed words) (first step nowMillis : UInt64) :
    (shard.seen first step nowMillis).1.WellFormed words := by
  have hnext := advance_wellFormed h nowMillis
  obtain ⟨-, heq⟩ | ⟨-, current, -, heq⟩ := shard.seen_cases _ _ _
  · rw [heq]
    exact hnext
  · rw [heq]
    refine ⟨fun index => ?_, hnext.current⟩
    dsimp only
    rw [update_apply]
    split
    · rw [replayBucketAdd_length, hnext.length]
    · exact hnext.length _

/-- The bits of a message recorded in `epoch` are still in that epoch's bucket,
unless the shard has moved five epochs on. -/
structure Remembers (shard : ReplayShard) (epoch : Nat) (first step : UInt64) : Prop where
  started : shard.started = true
  le : epoch ≤ shard.epoch.toNat
  contains (hrecent : shard.epoch.toNat < epoch + 5) (index : Fin replayBucketCount)
    (hindex : index.val = epoch % 5) :
    replayBucketContains (shard.buckets index) first step = true

variable {epoch : Nat} {first step : UInt64}

variable (h : shard.Remembers epoch first step)
include h

theorem Remembers.advance (nowMillis : UInt64) :
    (shard.advance nowMillis).Remembers epoch first step := by
  obtain ⟨hnext, ⟨hfresh, -⟩ | ⟨-, hepoch, hbuckets⟩⟩ := shard.advance_cases _
  · simp [h.started] at hfresh
  · have hle := h.le
    refine ⟨hnext, by omega, ?_⟩
    intro hrecent index hindex
    rw [hbuckets _ _ hle hindex hrecent]
    exact h.contains (by omega) _ hindex

theorem Remembers.seen (first' step' nowMillis : UInt64) :
    (shard.seen first' step' nowMillis).1.Remembers epoch first step := by
  have hnext := h.advance nowMillis
  obtain ⟨-, heq⟩ | ⟨-, current, -, heq⟩ := shard.seen_cases _ _ _
  · rw [heq]
    exact hnext
  · rw [heq]
    refine ⟨hnext.started, hnext.le, ?_⟩
    intro hrecent index hindex
    have hold := hnext.contains hrecent _ hindex
    dsimp only
    rw [update_apply]
    split
    · next hcurrent =>
        rw [← hcurrent]
        exact replayBucketContains_add_of_contains hold _ _
    · exact hold

/-- A message that is remembered is reported while the shard's epoch is less
than five past the one it was recorded in. -/
theorem Remembers.duplicate (nowMillis : UInt64)
    (hrecent : (shard.advance nowMillis).epoch.toNat < epoch + 5) :
    (shard.seen first step nowMillis).2 = true := by
  have hcontains := (h.advance _).contains hrecent ⟨epoch % 5, Nat.mod_lt _ (by decide)⟩ rfl
  obtain ⟨-, heq⟩ | ⟨hnone, -⟩ := shard.seen_cases _ _ _
  · rw [heq]
  · exact absurd ⟨_, hcontains⟩ hnone

omit h

theorem seen_remembers (hshard : shard.WellFormed words) (hpos : 0 < words)
    (hsmall : words ≤ replayFilterWords) (hnew : (shard.seen first step nowMillis).2 = false) :
    (shard.seen first step nowMillis).1.Remembers (shard.advance nowMillis).epoch.toNat
      first step := by
  have hnext := advance_wellFormed hshard nowMillis
  have hstarted := (shard.advance_cases nowMillis).1
  obtain ⟨-, heq⟩ | ⟨-, current, hcurrent, heq⟩ := shard.seen_cases first step nowMillis
  · simp [heq] at hnew
  · rw [heq]
    refine ⟨hstarted, le_refl _, ?_⟩
    intro _ index hindex
    have hsame : index = current := by
      apply Fin.ext
      rw [hindex, hcurrent, hnext.current hstarted]
      exact (Nat.mod_mod _ _).symm
    dsimp only
    rw [hsame, update_self]
    exact replayBucketContains_add_self (by rw [hnext.length]; exact hpos)
      (by rw [hnext.length]; exact hsmall) _ _

end ReplayShard

namespace ReplayFilter

open ReplayShard

/-- The invariant of the filter while the clock has not passed `nowMillis`. -/
def Bounded (words : Nat) (nowMillis : UInt64) (filter : ReplayFilter) : Prop :=
  ∀ index, (filter.shards index).WellFormed words ∧
    ((filter.shards index).started = true →
      (filter.shards index).epoch.toNat ≤ epochOf nowMillis)

def Remembers (filter : ReplayFilter) (epoch : Nat) (message : Presented) : Prop :=
  let hashes := replayHashes message.scope message.id message.expiration
  (filter.shards (filter.shardIndex hashes.1)).Remembers epoch hashes.1 hashes.2

variable {limit : UInt64}

private theorem advance_epoch_le {shard : ReplayShard}
    (hshard : shard.started = true → shard.epoch.toNat ≤ epochOf limit) (hle : nowMillis ≤ limit) :
    (shard.advance nowMillis).epoch.toNat ≤ epochOf limit := by
  have hepoch : epochOf nowMillis ≤ epochOf limit :=
    Nat.div_le_div_right (UInt64.le_iff_toNat_le.mp hle)
  obtain ⟨-, ⟨-, h⟩ | ⟨hstarted, h, -⟩⟩ := shard.advance_cases nowMillis
  · omega
  · have := hshard hstarted
    omega

variable {filter : ReplayFilter} {message : Presented}

theorem seen_bounded {words : Nat} (h : filter.Bounded words limit) (hle : message.nowMillis ≤ limit) :
    (filter.seen message).1.Bounded words limit := by
  intro (index : Fin filter.shardCount)
  simp only [ReplayFilter.seen, update_apply]
  split
  · refine ⟨seen_wellFormed (h _).1 _ _ _, fun _ => ?_⟩
    rw [(seen_epoch _ _ _ _).2]
    exact advance_epoch_le (h _).2 hle
  · exact h _

theorem Remembers.seen {epoch : Nat} (h : filter.Remembers epoch message) (other : Presented) :
    (filter.seen other).1.Remembers epoch message := by
  simp only [Remembers, ReplayFilter.seen, update_apply, shardIndex] at h ⊢
  split
  · next hsame =>
      rw [hsame] at h
      exact ReplayShard.Remembers.seen h _ _ _
  · exact h

theorem initialized_bounded (procs : Int) : ∃ words, 0 < words ∧ words ≤ replayFilterWords ∧
    ∀ nowMillis, (initialized procs).Bounded words nowMillis := by
  have hpos := workers_pos procs
  have hwords : replayFilterWords = 4096 := rfl
  refine ⟨(replayFilterWords + (workers procs replayFilterWords).toNat - 1) /
    (workers procs replayFilterWords).toNat, ?_, ?_, ?_⟩
  · exact Nat.div_pos (by omega) hpos
  · generalize (workers procs replayFilterWords).toNat = shardCount at hpos ⊢
    refine Nat.div_le_of_le_mul ?_
    rw [hwords]
    omega
  · intro nowMillis index
    exact ⟨⟨fun _ => length_replicate, by simp [initialized]⟩, by simp [initialized]⟩

theorem after_bounded {procs : Int} {words : Nat} (hstart : (initialized procs).Bounded words limit)
    {messages : List Presented} (hle : ∀ message ∈ messages, message.nowMillis ≤ limit) :
    (after procs messages).Bounded words limit :=
  run_invariant (I := Bounded words limit) (fun _ _ hle h => seen_bounded h hle) hstart
    (along_of_forall hle _)

private theorem advance_epoch_eq {shard : ReplayShard}
    (hshard : shard.started = true → shard.epoch.toNat ≤ epochOf nowMillis) :
    (shard.advance nowMillis).epoch.toNat = epochOf nowMillis := by
  obtain ⟨-, ⟨-, h⟩ | ⟨hstarted, h, -⟩⟩ := shard.advance_cases _
  · exact h
  · have := hshard hstarted
    omega

/-- A message that passed the expiration check and was reported as not seen is
reported as a duplicate whenever the same message passes the check again,
whatever was presented in between. The clock never runs backwards. -/
theorem seen_again (procs : Int) (earlier between : List Presented) (message : Presented)
    (later : UInt64)
    (hclock : (earlier ++ message :: (between ++ [{ message with nowMillis := later }])).Pairwise
      fun a b => a.nowMillis ≤ b.nowMillis)
    (hfirst : validateI2NPExpiration message.expiration message.nowMillis = .ok ())
    (hlater : validateI2NPExpiration message.expiration later = .ok ())
    (hnew : ((after procs earlier).seen message).2 = false) :
    ((after procs (earlier ++ message :: between)).seen
      { message with nowMillis := later }).2 = true := by
  obtain ⟨words, hpos, hsmall, hstart⟩ := initialized_bounded procs
  rw [pairwise_append, pairwise_cons, pairwise_append] at hclock
  obtain ⟨-, ⟨hafter, -, -, hbetween⟩, hbefore⟩ := hclock
  -- The first call records the message in the epoch of its time.
  have hbounded := after_bounded (hstart _) fun other hmem => hbefore _ hmem message (by simp)
  have hremembers : ((after procs earlier).seen message).1.Remembers
      (epochOf message.nowMillis) message := by
    rw [← advance_epoch_eq (hbounded _).2]
    have hshard := seen_remembers (hbounded _).1 hpos hsmall hnew
    simpa only [Remembers, ReplayFilter.seen, shardIndex, update_self] using hshard
  -- Every later call keeps it.
  have hkept : (after procs (earlier ++ message :: between)).Remembers
      (epochOf message.nowMillis) message := by
    rw [after, run_append, run_cons]
    exact run_invariant (I := fun filter : ReplayFilter => filter.Remembers _ message)
      (fun _ other _ h => h.seen _) hremembers
      (along_of_forall (Q := fun _ => True) (by simp) _)
  -- The window of 240 seconds touches at most four further epochs.
  have hlast : (after procs (earlier ++ message :: between)).Bounded words later := by
    refine after_bounded (hstart _) fun other hmem => ?_
    rcases mem_append.mp hmem with hmem | hmem
    · exact hbefore _ hmem { message with nowMillis := later } (by simp)
    · rcases mem_cons.mp hmem with rfl | hmem
      · exact hafter { other with nowMillis := later } (by simp)
      · exact hbetween _ hmem { message with nowMillis := later } (by simp)
  refine ReplayShard.Remembers.duplicate hkept later ?_
  rw [advance_epoch_eq (hlast _).2]
  rw [validateI2NPExpiration_ok_iff] at hfirst hlater
  simp only [epochOf]
  omega

/-- A message that expires at 1000 s, presented at both ends of its window
with another message in between. -/
theorem seen_again_window_ends :
    ((after 4096 [⟨.i2np, 7, 1000000, 820000⟩, ⟨.garlicSet, 9, 950000, 900000⟩]).seen
      ⟨.i2np, 7, 1000000, 1060000⟩).2 = true :=
  seen_again 4096 [] [⟨.garlicSet, 9, 950000, 900000⟩] ⟨.i2np, 7, 1000000, 820000⟩ 1060000
    (by decide) (by decide) (by decide) (by decide +kernel)

end ReplayFilter

end Ivnp.Router
