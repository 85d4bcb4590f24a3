import Ivnp.Ssu2.RelayBlocks

/-!
The address validation tokens of an SSU2 manager. A token is a truncated HMAC of the address, the
connection IDs and the bucket of time it is issued in, and it is taken in that bucket and in the
next one. A bucket lasts as many whole seconds as the token lifetime has.
-/

namespace Ivnp.Ssu2

open Ivnp.Lib

def second : Nat := 1000000000

/-- A time from the Unix epoch on in nanoseconds, with the seconds in an `int64`. -/
def Instant := { nanos : Nat // nanos / second < 2 ^ 63 }

def Instant.unix (now : Instant) : Nat := now.val / second

/-- What tokens are made with; `mac` is the HMAC under the secret, cut to eight bytes. -/
structure TokenIssuer where
  mac : Bytes → UInt64
  tokenLifetime : Nat
  lifetime_lt : tokenLifetime < 2 ^ 63

structure NewToken where
  token : UInt64
  expiration : UInt32

namespace TokenIssuer

variable (m : TokenIssuer)

def tokenBucket (now : Instant) : UInt64 :=
  let seconds := UInt64.ofNat (m.tokenLifetime / second)
  UInt64.ofNat now.unix / (if seconds = 0 then 1 else seconds)

/-- The address is absent if it is none of UDP. -/
def retryToken (remote : Option AddrPort) (destinationID sourceID bucket : UInt64) : Option UInt64 :=
  match remote with
  | none => none
  | some remote =>
    if remote.port = 0 then none
    else
      let ip := remote.addr.octets
      some (m.mac (UInt8.ofNat ip.length :: (ip ++ (natBE 2 remote.port.toNat ++
        (natBE 8 destinationID.toNat ++ (natBE 8 sourceID.toNat ++ natBE 8 bucket.toNat))))) ||| 1)

def newToken (now : Instant) (remote : Option AddrPort) (destinationID sourceID : UInt64) :
    Option UInt64 :=
  m.retryToken remote destinationID sourceID (m.tokenBucket now)

def newNewToken (now : Instant) (remote : Option AddrPort) : Option NewToken :=
  (m.retryToken remote 0 0 (m.tokenBucket now)).map fun token =>
    ⟨token, UInt32.ofNat ((now.val + m.tokenLifetime) / second)⟩

def consumeToken (now : Instant) (token : UInt64) (remote : Option AddrPort)
    (destinationID sourceID : UInt64) : Bool :=
  let bucket := m.tokenBucket now
  if m.retryToken remote destinationID sourceID bucket = some token then true
  else if bucket = 0 then false
  else m.retryToken remote destinationID sourceID (bucket - 1) = some token

def consumeNewToken (now : Instant) (token : UInt64) (remote : Option AddrPort) : Bool :=
  if token = 0 then false else m.consumeToken now token remote 0 0

/-- A token is taken before its expiration, and no longer some time after it. -/
def Window (issued : Instant) (expiration : Nat) (consume : Instant → Bool) : Prop :=
  (∀ now : Instant, issued.val ≤ now.val → now.val < expiration * second → consume now = true) ∧
    ∀ now : Instant, issued.val + 2 * m.tokenLifetime + 2 * second < now.val → consume now = false

variable {m}

variable (hlifetime : second ≤ m.tokenLifetime)
include hlifetime

theorem toNat_tokenBucket (now : Instant) :
    (m.tokenBucket now).toNat = now.unix / (m.tokenLifetime / second) := by
  have hlt := m.lifetime_lt
  have hnow := now.property
  have hpos : 0 < m.tokenLifetime / second := Nat.div_pos hlifetime (by decide)
  have hle : m.tokenLifetime / second ≤ m.tokenLifetime := Nat.div_le_self _ _
  have hseconds : (UInt64.ofNat (m.tokenLifetime / second)).toNat = m.tokenLifetime / second :=
    UInt64.toNat_ofNat_of_lt' (by rw [UInt64.size]; omega)
  have hne : UInt64.ofNat (m.tokenLifetime / second) ≠ 0 := by
    rw [ne_eq, ← UInt64.toNat_inj, hseconds]
    exact Nat.ne_of_gt hpos
  unfold tokenBucket
  dsimp only
  rw [if_neg hne, UInt64.toNat_div, hseconds, Instant.unix,
    UInt64.toNat_ofNat_of_lt' (by rw [UInt64.size]; omega)]

theorem tokenBucket_before {issued now : Instant} (hissued : issued.val ≤ now.val)
    (hnow : now.val < (issued.val + m.tokenLifetime) / second * second) :
    m.tokenBucket now = m.tokenBucket issued ∨
      m.tokenBucket now - 1 = m.tokenBucket issued ∧ m.tokenBucket now ≠ 0 := by
  have hpos : 0 < m.tokenLifetime / second := Nat.div_pos hlifetime (by decide)
  have hmono : issued.unix / (m.tokenLifetime / second) ≤ now.unix / (m.tokenLifetime / second) :=
    Nat.div_le_div_right (Nat.div_le_div_right hissued)
  have hnext : now.unix ≤ issued.unix + m.tokenLifetime / second := by
    simp only [Instant.unix, second] at hnow ⊢
    omega
  have hbucket := Nat.div_le_div_right (c := m.tokenLifetime / second) hnext
  rw [Nat.add_div_right _ hpos] at hbucket
  rw [← toNat_tokenBucket hlifetime, ← toNat_tokenBucket hlifetime] at hmono hbucket
  rcases Nat.eq_or_lt_of_le hmono with heq | hlt
  · exact .inl (UInt64.toNat_inj.mp heq.symm)
  · have hone : (1 : UInt64) ≤ m.tokenBucket now := by
      rw [UInt64.le_iff_toNat_le]
      exact Nat.le_trans (Nat.succ_le_succ (Nat.zero_le _)) hlt
    refine .inr ⟨UInt64.toNat_inj.mp ?_, ?_⟩
    · rw [UInt64.toNat_sub_of_le _ _ hone]
      exact Nat.sub_eq_of_eq_add (Nat.le_antisymm hbucket hlt)
    · rintro hzero
      rw [hzero] at hlt
      exact Nat.not_lt_zero _ hlt

theorem tokenBucket_after {issued now : Instant}
    (hnow : issued.val + 2 * m.tokenLifetime + 2 * second < now.val) :
    m.tokenBucket now ≠ m.tokenBucket issued ∧ m.tokenBucket now - 1 ≠ m.tokenBucket issued := by
  have hpos : 0 < m.tokenLifetime / second := Nat.div_pos hlifetime (by decide)
  have hlater : issued.unix + 2 * (m.tokenLifetime / second) ≤ now.unix := by
    simp only [Instant.unix, second] at hnow ⊢
    omega
  have hbucket := Nat.div_le_div_right (c := m.tokenLifetime / second) hlater
  rw [Nat.add_mul_div_right _ _ hpos, ← toNat_tokenBucket hlifetime,
    ← toNat_tokenBucket hlifetime] at hbucket
  have hone : (1 : UInt64) ≤ m.tokenBucket now := by
    rw [UInt64.le_iff_toNat_le]
    exact Nat.le_trans (Nat.le_add_left 1 (_ + 1)) hbucket
  constructor
  · intro heq
    rw [heq] at hbucket
    omega
  · intro heq
    rw [← UInt64.toNat_inj, UInt64.toNat_sub_of_le _ _ hone] at heq
    change (m.tokenBucket now).toNat - 1 = _ at heq
    omega

theorem window_consumeToken {issued : Instant}
    {remote : Option AddrPort} {destinationID sourceID token : UInt64}
    (htoken : m.newToken issued remote destinationID sourceID = some token)
    (hdistinct : ∀ bucket ≠ m.tokenBucket issued,
      m.retryToken remote destinationID sourceID bucket ≠ some token) :
    m.Window issued ((issued.val + m.tokenLifetime) / second) fun now =>
      m.consumeToken now token remote destinationID sourceID := by
  rw [newToken] at htoken
  constructor
  · intro now hissued hnow
    unfold consumeToken
    rcases tokenBucket_before hlifetime hissued hnow with hsame | ⟨hnext, hne⟩
    · simp [hsame, htoken]
    · simp [hnext, hne, htoken]
  · intro now hnow
    obtain ⟨hsame, hnext⟩ := tokenBucket_after hlifetime hnow
    simp [consumeToken, hdistinct _ hsame, hdistinct _ hnext]

omit hlifetime

/-- Tokens for new sessions and retry tokens are taken up to their expiration and not beyond
twice the lifetime and two seconds, as long as no other bucket has the same token. -/
theorem token_window (m : TokenIssuer) (hlifetime : second ≤ m.tokenLifetime) (issued : Instant)
    (remote : Option AddrPort) :
    (∀ token, m.newNewToken issued remote = some token →
      (∀ bucket ≠ m.tokenBucket issued, m.retryToken remote 0 0 bucket ≠ some token.token) →
        m.Window issued token.expiration.toNat fun now =>
          m.consumeNewToken now token.token remote) ∧
      ∀ destinationID sourceID token,
        m.newToken issued remote destinationID sourceID = some token →
          (∀ bucket ≠ m.tokenBucket issued,
            m.retryToken remote destinationID sourceID bucket ≠ some token) →
            m.Window issued ((issued.val + m.tokenLifetime) / second) fun now =>
              m.consumeToken now token remote destinationID sourceID := by
  refine ⟨fun token htoken hdistinct => ?_, fun _ _ _ => window_consumeToken hlifetime⟩
  obtain ⟨value, hvalue, rfl⟩ := Option.map_eq_some_iff.mp htoken
  obtain ⟨hbefore, hafter⟩ := window_consumeToken hlifetime hvalue hdistinct
  have hodd : value ≠ 0 := by
    unfold retryToken at hvalue
    split at hvalue
    · cases hvalue
    split at hvalue
    · cases hvalue
    cases hvalue
    exact fun hzero => absurd (UInt64.or_eq_zero_iff.mp hzero).2 (by decide)
  refine ⟨fun now hissued hnow => ?_, fun now hnow => ?_⟩
  · refine (if_neg hodd).trans (hbefore now hissued (Nat.lt_of_lt_of_le hnow ?_))
    exact Nat.mul_le_mul_right _ (by rw [UInt32.toNat_ofNat']; exact Nat.mod_le _ _)
  · exact (if_neg hodd).trans (hafter now hnow)

def sampleIssuer : TokenIssuer where
  mac bytes := if bytes.drop 23 = natBE 8 0 then 2 else 0
  tokenLifetime := 1500000000
  lifetime_lt := by decide

def sampleRemote : Option AddrPort := some ⟨.v4 (FixedBytes.zero 4), 1⟩

theorem token_window_first :
    sampleIssuer.Window ⟨0, by decide⟩ 1 fun now =>
      sampleIssuer.consumeNewToken now 3 sampleRemote := by
  refine (token_window sampleIssuer (by decide) ⟨0, by decide⟩ sampleRemote).1 ⟨3, 1⟩ rfl ?_
  intro bucket hother htoken
  have hlast : natBE 8 bucket.toNat ≠ natBE 8 0 := by
    intro hsame
    have hnat := congrArg beNat hsame
    rw [beNat_natBE_of_lt 8 _ bucket.toNat_lt] at hnat
    exact hother (UInt64.toNat_inj.mp hnat)
  have hmac : sampleIssuer.retryToken sampleRemote 0 0 bucket = some (0 ||| 1) := by
    exact congrArg (fun mac => some (mac ||| 1)) (if_neg hlast)
  rw [hmac] at htoken
  exact absurd htoken (by decide)

end TokenIssuer

end Ivnp.Ssu2
