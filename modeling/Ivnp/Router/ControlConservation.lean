import Ivnp.Router.ControlQueue

/-!
Nothing is lost in the control queue. At every moment of every run the messages
admitted so far are those completed, the one in the worker's hands and those in the
channel, in this order, and the usage is that of the messages not yet completed.
-/

namespace Ivnp.Router

open Ivnp.Lib Ivnp.Foundation List Option Table ControlRun

/-- What `messages` use of a budget. -/
def usageOf (messages : List ControlMessage) : ControlUsage :=
  ⟨messages.length, (messages.map ControlMessage.size).sum⟩

theorem usageOf_append_singleton (messages : List ControlMessage) (message : ControlMessage) :
    usageOf (messages ++ [message]) = (usageOf messages).add message := by
  simp [usageOf, ControlUsage.add]

theorem usageOf_cons_remove (message : ControlMessage) (rest : List ControlMessage) :
    (usageOf (message :: rest)).remove message = usageOf rest := by
  simp [usageOf, ControlUsage.remove]

/-- The part of the queue that the accounting is about. -/
structure Account where
  limits : ControlQueueLimits
  usage : ControlUsage
  sources : Table I2NPSource ControlUsage
  idle : Bool

def ControlQueue.account {Error : Type} (queue : ControlQueue Error) : Account :=
  ⟨queue.limits, queue.usage, queue.sources, queue.idle⟩

structure Accounted (account : Account) (pending : List ControlMessage) : Prop where
  usage : account.usage = usageOf pending
  bySource : ∀ source, (account.sources.lookup source).getD .zero =
    usageOf (pending.filter (·.budget = source))
  items_sum : Table.sum ControlUsage.items account.sources = account.usage.items
  bytes_sum : Table.sum ControlUsage.bytes account.sources = account.usage.bytes
  items_le : account.usage.items ≤ account.limits.items
  bytes_le : account.usage.bytes ≤ account.limits.bytes
  source_le : ∀ source usage, account.sources.lookup source = some usage →
    usage.items ≤ account.limits.sourceItems ∧ usage.bytes ≤ account.limits.sourceBytes
  idle : account.idle = true ↔ account.usage.items = 0

section Sources

/-- `next` has `usage` for `source`, or no entry where that is nothing. -/
def Updates (sources next : Table I2NPSource ControlUsage) (source : I2NPSource)
    (usage : ControlUsage) : Prop :=
  next = sources.insert source usage ∨ next = sources.erase source ∧ usage = .zero

variable {sources next : Table I2NPSource ControlUsage} {source : I2NPSource} {usage : ControlUsage}

variable (h : Updates sources next source usage)
include h

theorem Updates.lookup_self :
    (next.lookup source).getD .zero = usage := by
  rcases h with rfl | ⟨rfl, rfl⟩
  · rw [AList.lookup_insert, getD_some]
  · rw [AList.lookup_erase, getD_none]

theorem Updates.lookup_ne {other : I2NPSource}
    (hother : other ≠ source) : next.lookup other = sources.lookup other := by
  rcases h with rfl | ⟨rfl, -⟩
  · exact AList.lookup_insert_ne hother
  · exact AList.lookup_erase_ne hother

theorem Updates.eq_of_lookup {found : ControlUsage}
    (hfound : next.lookup source = some found) : found = usage := by
  rw [← h.lookup_self, hfound, getD_some]

theorem Updates.sum {measure : ControlUsage → Int} {total : Int} (change : Int)
    (htotal : Table.sum measure sources = total) (hzero : measure .zero = 0)
    (husage : measure usage = measure ((sources.lookup source).getD .zero) + change) :
    Table.sum measure next = total + change := by
  have hold : ((sources.lookup source).map measure).getD 0 =
      measure ((sources.lookup source).getD .zero) := by
    cases sources.lookup source
    · exact hzero.symm
    · rfl
  have herase := sum_erase measure sources source
  rcases h with rfl | ⟨rfl, rfl⟩
  · rw [sum_insert]
    omega
  · omega

end Sources

section Accounting

variable {Error : Type} {handler : ControlHandler Error} {queue next : ControlQueue Error}
  {message : ControlMessage}

theorem ControlQueue.accounted_new {limits : ControlQueueLimits}
    (h : ControlQueue.new limits = some queue) : Accounted queue.account [] := by
  unfold ControlQueue.new at h
  dsimp only at h
  split at h
  · cases h
  next hlimits =>
  push Not at hlimits
  obtain ⟨⟨hitems, hbytes, -, -⟩, -⟩ := hlimits
  cases h
  exact {
    usage := rfl
    bySource := fun _ => rfl
    items_sum := rfl
    bytes_sum := rfl
    items_le := hitems.le
    bytes_le := hbytes.le
    source_le := nofun
    idle := iff_of_true rfl rfl }

theorem ControlQueue.accept_eq_ok (h : queue.accept handler message = .ok next) :
    (queue.started = true ∧ queue.stopped = false ∧ queue.cancelled = false) ∧
      queue.usage.items < queue.limits.items ∧
      message.size + queue.usage.bytes ≤ queue.limits.bytes ∧
      (queue.sourceUsage message.budget).items < queue.limits.sourceItems ∧
      message.size + (queue.sourceUsage message.budget).bytes ≤ queue.limits.sourceBytes ∧
      next = { queue with
        idle := if queue.usage.items = 0 then false else queue.idle
        usage := queue.usage.add message
        sources := queue.sources.insert message.budget
          ((queue.sourceUsage message.budget).add message)
        submitted := queue.submitted + 1 } := by
  unfold ControlQueue.accept at h
  split at h
  · cases h
  next hrunning =>
  split at h
  · cases h
  dsimp only at h
  split at h
  · cases h
  next hroom =>
  change ¬(queue.usage.items ≥ queue.limits.items ∨
    message.size > queue.limits.bytes - queue.usage.bytes ∨
    (queue.sourceUsage message.budget).items ≥ queue.limits.sourceItems ∨
    message.size > queue.limits.sourceBytes - (queue.sourceUsage message.budget).bytes) at hroom
  simp only [Bool.not_eq_true', not_or, Bool.not_eq_false, Bool.not_eq_true] at hrunning
  refine ⟨hrunning, ?_, ?_, ?_, ?_, (Except.ok.inj h).symm⟩ <;> omega

theorem ControlQueue.accounted_accept {pending : List ControlMessage}
    (h : queue.accept handler message = .ok next) (hqueue : Accounted queue.account pending) :
    Accounted next.account (pending ++ [message]) := by
  obtain ⟨-, hitems, hbytes, hsourceItems, hsourceBytes, rfl⟩ := ControlQueue.accept_eq_ok h
  have hupdates : Updates queue.sources (queue.sources.insert message.budget
      ((queue.sourceUsage message.budget).add message)) message.budget
      ((queue.sourceUsage message.budget).add message) := Or.inl rfl
  have hnonneg : 0 ≤ queue.usage.items := by
    rw [show queue.usage = _ from hqueue.usage]
    exact Int.natCast_nonneg _
  refine {
    usage := ?_
    bySource := ?_
    items_sum := ?_
    bytes_sum := ?_
    items_le := ?_
    bytes_le := ?_
    source_le := ?_
    idle := ?_ }
  · rw [usageOf_append_singleton]
    exact congrArg (ControlUsage.add · message) hqueue.usage
  · intro source
    rw [filter_append]
    by_cases hbudget : source = message.budget
    · subst hbudget
      rw [filter_cons_of_pos (by simp), filter_nil, usageOf_append_singleton, ← hqueue.bySource]
      exact hupdates.lookup_self
    · rw [filter_cons_of_neg (by simpa using Ne.symm hbudget), filter_nil,
        append_nil, ← hqueue.bySource]
      exact congrArg (Option.getD · _) (hupdates.lookup_ne hbudget)
  · exact hupdates.sum 1 hqueue.items_sum rfl rfl
  · exact hupdates.sum message.size hqueue.bytes_sum rfl rfl
  · exact hitems
  · exact (add_comm _ _).trans_le hbytes
  · intro source usage hlookup
    by_cases hbudget : source = message.budget
    · subst hbudget
      rw [hupdates.eq_of_lookup hlookup]
      exact ⟨hsourceItems, (add_comm _ _).trans_le hsourceBytes⟩
    · exact hqueue.source_le _ _ ((hupdates.lookup_ne hbudget).symm.trans hlookup)
  · have hidle := hqueue.idle
    change (if queue.usage.items = 0 then false else queue.idle) = true ↔ queue.usage.items + 1 = 0
    split
    · exact iff_of_false Bool.false_ne_true (by omega)
    next hbusy => exact iff_of_false (fun h => hbusy (hidle.mp h)) (by omega)

variable {rest : List ControlMessage}

theorem ControlQueue.updates_complete (handler : ControlHandler Error) (err : Option Error)
    (hqueue : Accounted queue.account (message :: rest)) :
    (queue.sourceUsage message.budget).remove message =
        usageOf (rest.filter (·.budget = message.budget)) ∧
      Updates queue.sources (queue.complete handler message err).sources message.budget
        ((queue.sourceUsage message.budget).remove message) := by
  have hsource : (queue.sourceUsage message.budget).remove message =
      usageOf (rest.filter (·.budget = message.budget)) := by
    have hcounted : queue.sourceUsage message.budget = _ := hqueue.bySource message.budget
    rw [hcounted, filter_cons_of_pos (by simp), usageOf_cons_remove]
  refine ⟨hsource, ?_⟩
  change Updates queue.sources (if ((queue.sourceUsage message.budget).remove message).items = 0
    then queue.sources.erase message.budget
    else queue.sources.insert message.budget ((queue.sourceUsage message.budget).remove message)) _ _
  split
  next hlast =>
    rw [hsource] at hlast ⊢
    rw [eq_nil_of_length_eq_zero (Int.ofNat_eq_zero.mp hlast)]
    exact Or.inr ⟨rfl, rfl⟩
  · exact Or.inl rfl

theorem Accounted.lookup_budget {account : Account} (h : Accounted account (message :: rest)) :
    ∃ usage, account.sources.lookup message.budget = some usage := by
  have hcounted := h.bySource message.budget
  rw [filter_cons_of_pos (by simp)] at hcounted
  cases hlookup : account.sources.lookup message.budget with
  | some usage => exact ⟨usage, rfl⟩
  | none =>
    rw [hlookup] at hcounted
    have hitems := congrArg ControlUsage.items hcounted
    change (0 : Int) = ((_ + 1 : Nat) : Int) at hitems
    omega

theorem ControlQueue.accounted_complete (err : Option Error)
    (hqueue : Accounted queue.account (message :: rest)) :
    Accounted (queue.complete handler message err).account rest := by
  have husage : queue.usage = usageOf (message :: rest) := hqueue.usage
  obtain ⟨hsource, hupdates⟩ := ControlQueue.updates_complete handler err hqueue
  have hsize : 0 ≤ message.size := Int.natCast_nonneg _
  refine {
    usage := ?_
    bySource := ?_
    items_sum := ?_
    bytes_sum := ?_
    items_le := ?_
    bytes_le := ?_
    source_le := ?_
    idle := ?_ }
  · rw [← usageOf_cons_remove, ← husage]
    rfl
  · intro source
    by_cases hbudget : source = message.budget
    · subst hbudget
      exact hupdates.lookup_self.trans hsource
    have hother := hqueue.bySource source
    rw [filter_cons_of_neg (by simpa using Ne.symm hbudget)] at hother
    exact (congrArg (Option.getD · _) (hupdates.lookup_ne hbudget)).trans hother
  · exact hupdates.sum (-1) hqueue.items_sum rfl rfl
  · exact hupdates.sum (-message.size) hqueue.bytes_sum rfl rfl
  · have hle : queue.usage.items ≤ queue.limits.items := hqueue.items_le
    change queue.usage.items - 1 ≤ queue.limits.items
    omega
  · have hle : queue.usage.bytes ≤ queue.limits.bytes := hqueue.bytes_le
    change queue.usage.bytes - message.size ≤ queue.limits.bytes
    omega
  · intro source usage hlookup
    by_cases hbudget : source = message.budget
    · subst hbudget
      obtain ⟨old, hold⟩ := hqueue.lookup_budget
      have hle : old.items ≤ queue.limits.sourceItems ∧ old.bytes ≤ queue.limits.sourceBytes :=
        hqueue.source_le _ _ hold
      have husage : usage = old.remove message := by
        change queue.sources.lookup message.budget = some old at hold
        rw [hupdates.eq_of_lookup hlookup, ControlQueue.sourceUsage, hold, getD_some]
      subst husage
      change old.items - 1 ≤ queue.limits.sourceItems ∧
        old.bytes - message.size ≤ queue.limits.sourceBytes
      omega
    · exact hqueue.source_le _ _ ((hupdates.lookup_ne hbudget).symm.trans hlookup)
  · have hbusy : queue.usage.items ≠ 0 := by
      rw [husage]
      exact Int.natCast_ne_zero.mpr (Nat.succ_ne_zero _)
    have hidle := hqueue.idle
    change (if queue.usage.items - 1 = 0 then true else queue.idle) = true ↔
      queue.usage.items - 1 = 0
    split
    next hlast => exact iff_of_true rfl hlast
    next hmore => exact iff_of_false (fun h => hbusy (hidle.mp h)) hmore

end Accounting

section Worker

variable {Error : Type}

/-- The worker is past the step that sets `stopped`. -/
def Worker.closing : Worker Error → Bool
  | draining | discarding _ | exited => true
  | _ => false

/-- The number of steps to the next completion, but for a message that has not arrived. -/
def Worker.rank : Worker Error → Nat
  | selecting => 3
  | received _ | stopping => 2
  | handling _ | draining => 1
  | _ => 0

theorem Worker.ne_absent {worker next : Worker Error} (h : next.rank < worker.rank) :
    worker ≠ .absent := by
  rintro rfl
  exact Nat.not_lt_zero _ h

/-- The messages that are admitted and not completed, in the order of their admission. -/
def ControlRun.pending (run : ControlRun Error) : List ControlMessage :=
  run.worker.executing ++ run.queue.messages ++ run.sending.toList

/-- What a step of the worker can be: nothing when it has to wait, a step of its own, a
receive, the stop of the queue, or the completion of the message in its hands. -/
inductive Works (handler : ControlHandler Error) (run : ControlRun Error) : ControlRun Error → Prop
  | waits (h : run.sending.isSome ∨ run.worker = .absent ∨ run.worker = .exited ∨
      run.worker = .selecting ∧ run.queue.messages = []) : Works handler run run
  | moves (next : Worker Error) (hexecuting : next.executing = run.worker.executing)
      (hclosing : next.closing = run.worker.closing) (hrank : next.rank < run.worker.rank)
      (hexit : next = .exited → run.queue.messages = []) (habsent : next ≠ .absent) :
      Works handler run { run with worker := next }
  | takes (message : ControlMessage) (rest : List ControlMessage) (next : Worker Error)
      (hmessages : run.queue.messages = message :: rest) (hbefore : run.worker.executing = [])
      (hafter : next.executing = [message]) (hclosing : next.closing = run.worker.closing)
      (hrank : next.rank < run.worker.rank) (hnext : next ≠ .exited ∧ next ≠ .absent) :
      Works handler run { run with worker := next, queue := { run.queue with messages := rest } }
  | stops (hworker : run.worker = .stopping) (hfree : run.sending = none) :
      Works handler run
        { run with worker := .draining, queue := { run.queue with stopped := true } }
  | completes (message : ControlMessage) (outcome : Outcome Error) (next : Worker Error)
      (hexecuting : run.worker.executing = [message]) (hfree : run.sending = none)
      (hafter : next.executing = []) (hclosing : next.closing = run.worker.closing)
      (hrank : next.rank < run.worker.rank + 4) (hnext : next ≠ .exited ∧ next ≠ .absent) :
      Works handler run (run.completeAs handler message outcome next)

variable {handler : ControlHandler Error}

theorem ControlRun.works (run : ControlRun Error) (done : Bool) (result : Option Error) :
    Works handler run (run.work handler done result) := by
  have hfree (h : ¬run.sending.isSome = true) : run.sending = none := not_isSome_iff_eq_none.mp h
  unfold work
  cases hworker : run.worker with
  | absent => exact .waits (by simp [hworker])
  | exited => exact .waits (by simp [hworker])
  | selecting =>
    dsimp only
    split
    next hmessages => exact .waits (by simp [hworker, hmessages])
    · exact .moves _ (by rw [hworker]; rfl) (by rw [hworker]; rfl) (by simp [hworker, Worker.rank])
        nofun nofun
    next message rest hmessages =>
      split
      · exact .moves _ (by rw [hworker]; rfl) (by rw [hworker]; rfl) (by simp [hworker, Worker.rank])
          nofun nofun
      · exact .takes message rest _ hmessages (by rw [hworker]; rfl) rfl (by rw [hworker]; rfl)
          (by simp [hworker, Worker.rank]) ⟨nofun, nofun⟩
  | received message =>
    dsimp only
    split
    · exact .moves _ (by rw [hworker]; rfl) (by rw [hworker]; rfl)
        (by simp [hworker, Worker.rank]) nofun nofun
    · exact .moves _ (by rw [hworker]; rfl) (by rw [hworker]; rfl)
        (by simp [hworker, Worker.rank]) nofun nofun
  | handling message =>
    exact .moves _ (by rw [hworker]; rfl) (by rw [hworker]; rfl)
      (by simp [hworker, Worker.rank]) nofun nofun
  | completing message outcome =>
    dsimp only
    split
    next hheld => exact .waits (Or.inl hheld)
    next hsending =>
    exact .completes message outcome _ (by rw [hworker]; rfl) (hfree hsending) rfl
      (by rw [hworker]; rfl) (by simp [hworker, Worker.rank]) ⟨nofun, nofun⟩
  | stopping =>
    dsimp only
    split
    next hheld => exact .waits (Or.inl hheld)
    next hsending => exact .stops hworker (hfree hsending)
  | draining =>
    dsimp only
    split
    next message rest hmessages =>
      exact .takes message rest _ hmessages (by rw [hworker]; rfl) rfl (by rw [hworker]; rfl)
        (by simp [hworker, Worker.rank]) ⟨nofun, nofun⟩
    next hmessages =>
      exact .moves _ (by rw [hworker]; rfl) (by rw [hworker]; rfl) (by simp [hworker, Worker.rank])
        (fun _ => hmessages) nofun
  | discarding message =>
    dsimp only
    split
    next hheld => exact .waits (Or.inl hheld)
    next hsending =>
    exact .completes message .discarded _ (by rw [hworker]; rfl) (hfree hsending) rfl
      (by rw [hworker]; rfl) (by simp [hworker, Worker.rank]) ⟨nofun, nofun⟩

end Worker

section Consistency

variable {Error : Type} {handler : ControlHandler Error}

/-- What a `Barrier` call in its phase knows, when `admitted` messages have been admitted
and `finished` of them completed. -/
def BarrierCall.Sound (barrier : BarrierCall) (admitted finished : Nat) : Prop :=
  match barrier.phase with
  | .called => barrier.before ≤ admitted
  | .waiting watermark _ | .woken watermark => barrier.before ≤ watermark
  | .returned none => barrier.before ≤ finished
  | .returned (some _) => True

theorem BarrierCall.Sound.mono {barrier : BarrierCall} {admitted finished admitted' finished' : Nat}
    (h : barrier.Sound admitted finished) (hadmitted : admitted ≤ admitted')
    (hfinished : finished ≤ finished') : barrier.Sound admitted' finished' := by
  obtain ⟨before, phase⟩ := barrier
  cases phase with
  | called => exact Nat.le_trans h hadmitted
  | waiting watermark channel => exact h
  | woken watermark => exact h
  | returned err =>
    cases err with
    | none => exact Nat.le_trans h hfinished
    | some error => trivial

/-- The state of a run: its account is that of the pending messages, its counters count its
history, the queue is stopped before the worker drains it, and no `Barrier` call has
returned too early. -/
structure ControlRun.Consistent (run : ControlRun Error) : Prop where
  account : Accounted run.queue.account run.pending
  order : run.admitted = run.finished.map Prod.fst ++ run.pending
  submitted : run.queue.submitted = run.admitted.length
  completed : run.queue.completed = run.finished.length
  absent : run.queue.started = false → run.worker = .absent
  launched : run.worker = .absent → run.queue.started = false ∧ run.pending = []
  closing : run.worker.closing = true → run.queue.stopped = true
  stopped : run.queue.stopped = true → run.sending = none
  exited : run.worker = .exited → run.queue.messages = []
  barriers : ∀ call barrier, run.barriers.lookup call = some barrier →
    barrier.Sound run.admitted.length run.finished.length

theorem ControlRun.consistent_initial {limits : ControlQueueLimits} {queue : ControlQueue Error}
    (h : ControlQueue.new limits = some queue) : (ControlRun.initial queue).Consistent := by
  have haccount := ControlQueue.accounted_new h
  have hfields : queue.submitted = 0 ∧ queue.completed = 0 ∧ queue.messages = [] ∧
      queue.started = false ∧ queue.stopped = false := by
    unfold ControlQueue.new at h
    dsimp only at h
    split at h
    · cases h
    · cases h
      exact ⟨rfl, rfl, rfl, rfl, rfl⟩
  obtain ⟨hsubmitted, hcompleted, hmessages, hstarted, hstopped⟩ := hfields
  have hpending : (initial queue).pending = [] := by
    change [] ++ queue.messages ++ [] = []
    rw [hmessages]
    rfl
  exact {
    account := by rw [hpending]; exact haccount
    order := by rw [hpending]; rfl
    submitted := hsubmitted
    completed := hcompleted
    absent := fun _ => rfl
    launched := fun _ => ⟨hstarted, hpending⟩
    closing := nofun
    stopped := fun h => rfl
    exited := nofun
    barriers := nofun }

/-- A step that admits and completes nothing. -/
theorem ControlRun.Consistent.moves {run : ControlRun Error} (h : run.Consistent)
    {worker : Worker Error} {messages : List ControlMessage} {sending : Option ControlMessage}
    {started stopped cancelled : Bool}
    (hpending : worker.executing ++ messages ++ sending.toList = run.pending)
    (habsent : started = false → worker = .absent)
    (hlaunched : worker = .absent → started = false ∧ run.pending = [])
    (hclosing : worker.closing = true → stopped = true) (hstopped : stopped = true → sending = none)
    (hexited : worker = .exited → messages = []) :
    ControlRun.Consistent { run with
      worker, sending, queue := { run.queue with messages, started, stopped, cancelled } } where
  account := (congrArg (Accounted run.queue.account) hpending).mpr h.account
  order := h.order.trans (congrArg _ hpending.symm)
  submitted := h.submitted
  completed := h.completed
  absent := habsent
  launched := fun heq => ⟨(hlaunched heq).1, hpending.trans (hlaunched heq).2⟩
  closing := hclosing
  stopped := hstopped
  exited := hexited
  barriers := h.barriers

theorem ControlRun.Consistent.work {run next : ControlRun Error} (h : run.Consistent)
    (hworks : Works handler run next) : next.Consistent := by
  have hlaunched (hworker : run.worker ≠ .absent) (hstarted : run.queue.started = false) : False :=
    hworker (h.absent hstarted)
  cases hworks with
  | waits => exact h
  | moves worker hexecuting hclosing hrank hexit habsent =>
    have hpending : worker.executing ++ run.queue.messages ++ run.sending.toList = run.pending := by
      rw [hexecuting]
      rfl
    exact h.moves hpending (fun hstarted => (hlaunched (Worker.ne_absent hrank) hstarted).elim)
      (fun heq => absurd heq habsent) (fun hnext => h.closing (hclosing.symm.trans hnext)) h.stopped
      hexit
  | takes message rest worker hmessages hbefore hafter hclosing hrank hnext =>
    have hpending : worker.executing ++ rest ++ run.sending.toList = run.pending := by
      rw [pending, hafter, hbefore, hmessages]
      rfl
    exact h.moves hpending (fun hstarted => (hlaunched (Worker.ne_absent hrank) hstarted).elim)
      (fun heq => absurd heq hnext.2) (fun hnext => h.closing (hclosing.symm.trans hnext)) h.stopped
      (fun heq => absurd heq hnext.1)
  | stops hworker hfree =>
    have hpending : [] ++ run.queue.messages ++ run.sending.toList = run.pending := by
      rw [pending, hworker]
      rfl
    exact h.moves hpending (fun hstarted => (hlaunched (by rw [hworker]; nofun) hstarted).elim)
      nofun (fun _ => rfl) (fun _ => hfree) nofun
  | completes message outcome worker hexecuting hfree hafter hclosing hrank hnext =>
    have hpending : run.pending =
        message :: (run.completeAs handler message outcome worker).pending := by
      change run.worker.executing ++ _ ++ _ = message :: (worker.executing ++ _ ++ _)
      rw [hexecuting, hafter]
      rfl
    have hworker : run.worker ≠ .absent := by
      intro hworker
      rw [hworker] at hexecuting
      cases hexecuting
    have haccount := h.account
    have horder := h.order
    rw [hpending] at haccount horder
    have hfinished : (run.completeAs handler message outcome worker).finished.length =
        run.finished.length + 1 := length_append
    exact {
      account := ControlQueue.accounted_complete _ haccount
      order := by
        rw [show (run.completeAs handler message outcome worker).admitted = _ from horder]
        change _ = (run.finished ++ [(message, outcome)]).map Prod.fst ++ _
        rw [map_append, append_assoc]
        rfl
      submitted := h.submitted
      completed := (congrArg (· + 1) h.completed).trans hfinished.symm
      absent := fun hstarted => (hlaunched hworker hstarted).elim
      launched := fun heq => absurd heq hnext.2
      closing := fun hnext => h.closing (hclosing.symm.trans hnext)
      stopped := h.stopped
      exited := fun heq => absurd heq hnext.1
      barriers := fun call barrier hlookup => (h.barriers _ _ hlookup).mono le_rfl (by omega) }

end Consistency

section Steps

variable {Error : Type} {handler : ControlHandler Error}

/-- What a step can be. The phase that a `Barrier` call moves to is sound for a
consistent state. -/
inductive Steps (handler : ControlHandler Error) (run : ControlRun Error) :
    ControlRun Error → Prop
  | stays : Steps handler run run
  | starts (hstarted : run.queue.started = false) :
      Steps handler run
        { run with queue := { run.queue with started := true }, worker := .selecting }
  | cancels : Steps handler run { run with queue := { run.queue with cancelled := true } }
  | admits (message : ControlMessage) (queue : ControlQueue Error) (hfree : run.sending = none)
      (haccept : run.queue.accept handler message = .ok queue) :
      Steps handler run
        { run with queue, sending := some message, admitted := run.admitted ++ [message] }
  | sends (message : ControlMessage) (hsending : run.sending = some message) :
      Steps handler run { run with
        queue := { run.queue with messages := run.queue.messages ++ [message] }, sending := none }
  | works (next : ControlRun Error) (h : Works handler run next) : Steps handler run next
  | updates (call : Nat) (barrier : BarrierCall) (opened : Nat) (progress : Option Nat)
      (hsound : run.Consistent → barrier.Sound run.admitted.length run.finished.length) :
      Steps handler run { run with
        queue := { run.queue with opened, progress }
        barriers := run.barriers.insert call barrier }
  | closes (cancelled : Bool) (hfree : run.sending = none) :
      Steps handler run { run with queue := { run.queue with stopped := true, cancelled } }

theorem ControlRun.steps_turn (run : ControlRun Error) (call : Nat) (ctxErr : Bool) :
    Steps handler run (run.turn call ctxErr) := by
  have hturn (barrier : BarrierCall) (watermark : Nat)
      (hbefore : run.Consistent → barrier.before ≤ watermark) :
      Steps handler run { run with
        queue := (run.queue.barrierTurn ctxErr watermark).1
        barriers := run.barriers.insert call
          { barrier with phase := (run.queue.barrierTurn ctxErr watermark).2 } } := by
    unfold ControlQueue.barrierTurn
    split_ifs with _ _ hcompleted
    · exact .updates call _ run.queue.opened run.queue.progress fun _ => trivial
    · exact .updates call _ run.queue.opened run.queue.progress fun _ => trivial
    · refine .updates call _ run.queue.opened run.queue.progress fun h => ?_
      rw [h.completed] at hcompleted
      exact Nat.le_trans (hbefore h) hcompleted
    · split
      · exact .updates call _ run.queue.opened run.queue.progress hbefore
      · exact .updates call _ _ _ hbefore
  unfold turn
  split
  next barrier hfree hlookup =>
    have hsound (h : run.Consistent) := h.barriers _ _ hlookup
    unfold BarrierCall.Sound at hsound
    split
    next hphase =>
      rw [hphase] at hsound
      exact hturn _ _ fun h => (hsound h).trans_eq h.submitted.symm
    next watermark hphase =>
      rw [hphase] at hsound
      exact hturn _ _ hsound
    · exact .stays
  · exact .stays

theorem ControlRun.steps_wake (run : ControlRun Error) (call : Nat) (event : BarrierEvent) :
    Steps handler run (run.wake call event) := by
  unfold wake
  split
  next before watermark channel hlookup =>
    cases event with
    | context => exact .updates call _ run.queue.opened run.queue.progress fun _ => trivial
    | stopped ctxErr =>
      dsimp only
      split
      · exact .updates call _ run.queue.opened run.queue.progress fun _ => trivial
      · exact .stays
    | progress =>
      dsimp only
      split
      · refine .updates call _ run.queue.opened run.queue.progress fun h => ?_
        have hbefore := h.barriers _ _ hlookup
        exact hbefore
      · exact .stays
  · exact .stays

theorem ControlRun.steps (run : ControlRun Error) (action : ControlAction Error) :
    Steps handler run (run.step handler action) := by
  have hfree (hheld : ¬run.sending.isSome = true) : run.sending = none :=
    not_isSome_iff_eq_none.mp hheld
  cases action with
  | start ctxErr =>
    dsimp only [step]
    split
    · exact .stays
    split
    · exact .stays
    next queue hstart =>
    unfold ControlQueue.start at hstart
    split_ifs at hstart with _ _ hstarted
    cases hstart
    exact .starts (Bool.not_eq_true _ ▸ hstarted)
  | cancel =>
    dsimp only [step]
    split
    · exact .cancels
    · exact .stays
  | enqueue message =>
    dsimp only [step]
    split
    · exact .stays
    next hheld =>
    split
    · exact .stays
    next queue haccept => exact .admits message queue (hfree hheld) haccept
  | send =>
    dsimp only [step]
    split
    · exact .stays
    next message hsending =>
    split
    · exact .sends message hsending
    · exact .stays
  | work done result => exact .works _ (run.works done result)
  | barrier call ctxErr =>
    dsimp only [step]
    split
    · exact .stays
    refine .updates call _ run.queue.opened run.queue.progress fun _ => ?_
    cases ctxErr with
    | false => exact le_rfl
    | true => trivial
  | turn call ctxErr => exact run.steps_turn _ _
  | wake call event => exact run.steps_wake _ _
  | close =>
    dsimp only [step]
    split
    · exact .stays
    next hheld =>
    unfold ControlQueue.close
    split
    · exact .stays
    · exact .closes _ (hfree hheld)

variable {run : ControlRun Error}

theorem ControlRun.Consistent.admits (h : run.Consistent) (hfree : run.sending = none)
    {queue : ControlQueue Error} {message : ControlMessage}
    (haccept : run.queue.accept handler message = .ok queue) :
    ControlRun.Consistent { run with
      queue, sending := some message, admitted := run.admitted ++ [message] } := by
  have haccount := ControlQueue.accounted_accept haccept h.account
  obtain ⟨⟨hstarted, hstopped, -⟩, -, -, -, -, rfl⟩ := ControlQueue.accept_eq_ok haccept
  have hpending : run.pending ++ [message] =
      run.worker.executing ++ run.queue.messages ++ [message] := by
    rw [pending, hfree, toList_none, append_nil]
  have hlength : (run.admitted ++ [message]).length = run.admitted.length + 1 := length_append
  rw [hpending] at haccount
  exact {
    account := haccount
    order := by
      change run.admitted ++ [message] =
        run.finished.map Prod.fst ++ (run.worker.executing ++ run.queue.messages ++ [message])
      rw [h.order, append_assoc, hpending]
    submitted := (congrArg (· + 1) h.submitted).trans hlength.symm
    completed := h.completed
    absent := fun heq => absurd (heq.symm.trans hstarted) Bool.false_ne_true
    launched := fun heq => absurd ((h.launched heq).1.symm.trans hstarted) Bool.false_ne_true
    closing := h.closing
    stopped := fun heq => absurd (hstopped.symm.trans heq) Bool.false_ne_true
    exited := h.exited
    barriers := fun call barrier hlookup =>
      (h.barriers _ _ hlookup).mono (by rw [hlength]; omega) le_rfl }

theorem ControlRun.Consistent.sends (h : run.Consistent) {message : ControlMessage}
    (hsending : run.sending = some message) :
    ControlRun.Consistent { run with
      queue := { run.queue with messages := run.queue.messages ++ [message] }, sending := none } := by
  have hpending : run.worker.executing ++ (run.queue.messages ++ [message]) ++ [] = run.pending := by
    rw [pending, hsending, append_nil, ← append_assoc]
    rfl
  have hopen : run.queue.stopped ≠ true := by
    intro hstopped
    rw [h.stopped hstopped] at hsending
    cases hsending
  refine h.moves hpending h.absent h.launched h.closing (fun _ => rfl) fun heq => ?_
  exact absurd (h.closing (by rw [heq]; rfl)) hopen

theorem ControlRun.Consistent.step {next : ControlRun Error} (h : run.Consistent)
    (hsteps : Steps handler run next) : next.Consistent := by
  cases hsteps with
  | stays => exact h
  | starts hstarted =>
    have hpending : [] ++ run.queue.messages ++ run.sending.toList = run.pending := by
      rw [pending, h.absent hstarted]
      rfl
    exact h.moves hpending nofun nofun nofun h.stopped nofun
  | cancels => exact h.moves rfl h.absent h.launched h.closing h.stopped h.exited
  | admits message queue hfree haccept => exact h.admits hfree haccept
  | sends message hsending => exact h.sends hsending
  | works next hworks => exact h.work hworks
  | updates call barrier opened progress hsound =>
    exact ⟨h.account, h.order, h.submitted, h.completed, h.absent, h.launched, h.closing,
      h.stopped, h.exited, Table.forall_lookup_insert (hsound h) h.barriers⟩
  | closes cancelled hfree =>
    exact h.moves rfl h.absent h.launched (fun _ => rfl) (fun _ => hfree) h.exited

theorem ControlRun.Consistent.after (h : run.Consistent) (actions : List (ControlAction Error)) :
    (run.after handler actions).Consistent :=
  run_preserves (fun state action hstate => hstate.step (state.steps action)) h _

/-- Nothing is taken out of the history, and the limits stay. -/
structure ControlRun.Extends (run next : ControlRun Error) : Prop where
  limits : next.queue.limits = run.queue.limits
  admitted : run.admitted <+: next.admitted
  finished : run.finished <+: next.finished

theorem Steps.extends {next : ControlRun Error} (h : Steps handler run next) :
    run.Extends next := by
  cases h with
  | admits message queue hfree haccept =>
    obtain ⟨-, -, -, -, -, rfl⟩ := ControlQueue.accept_eq_ok haccept
    exact ⟨rfl, prefix_append _ _, prefix_rfl⟩
  | works next hworks =>
    cases hworks with
    | completes => exact ⟨rfl, prefix_rfl, prefix_append _ _⟩
    | _ => exact ⟨rfl, prefix_rfl, prefix_rfl⟩
  | _ => exact ⟨rfl, prefix_rfl, prefix_rfl⟩

theorem ControlRun.extends_after (run : ControlRun Error) (actions : List (ControlAction Error)) :
    run.Extends (run.after handler actions) := by
  apply run_preserves (I := run.Extends) _ ⟨rfl, prefix_rfl, prefix_rfl⟩
  intro state action hstate
  have hsteps : Steps handler state (state.step handler action) := state.steps action
  have hnext := hsteps.extends
  exact ⟨hnext.limits.trans hstate.limits, hstate.admitted.trans hnext.admitted,
    hstate.finished.trans hnext.finished⟩

end Steps

section Progress

variable {Error : Type} {handler : ControlHandler Error}

/-- The steps that the worker takes while the mutex is free, the handler returning in its own. -/
def ControlRun.turns (handler : ControlHandler Error) :
    ControlRun Error → List (ControlAction Error) → Nat
  | _, [] => 0
  | run, .work done result :: rest =>
    (if run.sending.isSome then 0 else 1) + turns handler (run.work handler done result) rest
  | run, action :: rest => turns handler (run.step handler action) rest

/-- A bound on the steps the worker needs until `target` messages are completed. -/
def ControlRun.rank (run : ControlRun Error) (target : Nat) : Nat :=
  4 * (target - run.finished.length) + run.worker.rank

variable {run : ControlRun Error} {target : Nat}

/-- While a message waits for its completion, a step of the worker brings it nearer. -/
theorem ControlRun.Consistent.rank_work {next : ControlRun Error} (h : run.Consistent)
    (htarget : target ≤ run.admitted.length) (hwaiting : run.finished.length < target)
    (hworks : Works handler run next) :
    next.rank target + (if run.sending.isSome then 0 else 1) ≤ run.rank target := by
  have hlength := congrArg length h.order
  rw [length_append, length_map] at hlength
  have hcount : (if run.sending.isSome then 0 else 1) ≤ 1 := by split <;> omega
  cases hworks with
  | waits hwaits =>
    cases hsending : run.sending with
    | some message => exact le_rfl
    | none =>
      have hpending : run.pending ≠ [] := by
        intro hnil
        rw [hnil, length_nil] at hlength
        omega
      exfalso
      apply hpending
      rcases hwaits with hheld | habsent | hexited | ⟨hselecting, hmessages⟩
      · rw [hsending] at hheld
        cases hheld
      · exact (h.launched habsent).2
      · rw [pending, hexited, h.exited hexited, hsending]
        rfl
      · rw [pending, hselecting, hmessages, hsending]
        rfl
  | moves worker hexecuting hclosing hrank =>
    change 4 * (target - run.finished.length) + worker.rank + _ ≤
      4 * (target - run.finished.length) + run.worker.rank
    omega
  | takes message rest worker hmessages hbefore hafter hclosing hrank =>
    change 4 * (target - run.finished.length) + worker.rank + _ ≤
      4 * (target - run.finished.length) + run.worker.rank
    omega
  | stops hworker =>
    have hrank : run.worker.rank = 2 := by rw [hworker]; rfl
    change 4 * (target - run.finished.length) + 1 + _ ≤
      4 * (target - run.finished.length) + run.worker.rank
    omega
  | completes message outcome worker hexecuting hfree hafter hclosing hrank =>
    have hfinished : (run.completeAs handler message outcome worker).finished.length =
        run.finished.length + 1 := length_append
    rw [rank, rank, hfinished]
    change 4 * (target - (run.finished.length + 1)) + worker.rank + _ ≤ _
    omega

/-- No other step puts the completion off. -/
theorem ControlRun.Consistent.rank_step {next : ControlRun Error} (h : run.Consistent)
    (htarget : target ≤ run.admitted.length) (hwaiting : run.finished.length < target)
    (hsteps : Steps handler run next) : next.rank target ≤ run.rank target := by
  cases hsteps with
  | starts hstarted =>
    -- nothing was admitted before the start
    have hpending := (h.launched (h.absent hstarted)).2
    have horder := congrArg length h.order
    rw [hpending, append_nil, length_map] at horder
    omega
  | works next hworks => exact (Nat.le_add_right _ _).trans (h.rank_work htarget hwaiting hworks)
  | _ => exact le_rfl

/-- Once the worker has taken enough steps, the first `target` messages are completed. -/
theorem ControlRun.Consistent.completes (h : run.Consistent)
    (htarget : target ≤ run.admitted.length) (actions : List (ControlAction Error))
    (hturns : run.rank target ≤ run.turns handler actions) :
    target ≤ (run.after handler actions).finished.length := by
  induction actions generalizing run with
  | nil =>
    change 4 * (target - run.finished.length) + run.worker.rank ≤ 0 at hturns
    change target ≤ run.finished.length
    omega
  | cons action rest ih =>
    by_cases hdone : target ≤ run.finished.length
    · have hextends : run.Extends (run.after handler (action :: rest)) := run.extends_after _
      exact hdone.trans hextends.finished.length_le
    have hwaiting := Nat.lt_of_not_le hdone
    have hsteps : Steps handler run (run.step handler action) := run.steps action
    apply ih (h.step hsteps) (htarget.trans hsteps.extends.admitted.length_le)
    cases action with
    | work done result =>
      have hworks : Works handler run (run.work handler done result) := run.works done result
      have hrank := h.rank_work htarget hwaiting hworks
      change run.rank target ≤ _ + (run.work handler done result).turns handler rest at hturns
      change (run.work handler done result).rank target ≤
        (run.work handler done result).turns handler rest
      omega
    | _ => exact (h.rank_step htarget hwaiting hsteps).trans hturns

end Progress

/-- What the queue owes its callers, with `limits` as it was configured. -/
structure ControlRun.Conserved {Error : Type} (limits : ControlQueueLimits)
    (run : ControlRun Error) : Prop where
  /-- The usage is that of the queued and the executing messages, and of the one that is
  about to be sent while an `Enqueue` call holds the mutex. -/
  usage : run.queue.usage =
    usageOf (run.worker.executing ++ run.queue.messages ++ run.sending.toList)
  sources : run.queue.usage = ⟨Table.sum ControlUsage.items run.queue.sources,
    Table.sum ControlUsage.bytes run.queue.sources⟩
  within : run.queue.usage.items ≤ limits.items ∧ run.queue.usage.bytes ≤ limits.bytes
  sourceWithin : ∀ source usage, run.queue.sources.lookup source = some usage →
    usage.items ≤ limits.sourceItems ∧ usage.bytes ≤ limits.sourceBytes
  /-- The send under the mutex finds room in the channel. -/
  room : run.sending.isSome → (run.queue.messages.length : Int) < limits.items
  /-- Every admitted message is completed, executing, queued or about to be sent, once. -/
  order : run.admitted = run.finished.map Prod.fst ++
    (run.worker.executing ++ run.queue.messages ++ run.sending.toList)
  exited : run.worker = .exited → run.finished.map Prod.fst = run.admitted
  /-- A `Barrier` call that has returned no error finds the messages completed that were
  admitted when it was made. -/
  barriers : ∀ call before, run.barriers.lookup call = some ⟨before, .returned none⟩ →
    run.admitted.take before <+: run.finished.map Prod.fst

variable {Error : Type}

theorem ControlRun.Consistent.room {run : ControlRun Error} (h : run.Consistent)
    (hheld : run.sending.isSome) : (run.queue.messages.length : Int) < run.queue.limits.items := by
  obtain ⟨message, hsending⟩ := isSome_iff_exists.mp hheld
  have hitems : run.queue.usage.items = run.pending.length := congrArg ControlUsage.items h.account.usage
  have hle : run.queue.usage.items ≤ run.queue.limits.items := h.account.items_le
  rw [pending, hsending, length_append, length_append] at hitems
  change _ = ((_ + 1 : Nat) : Int) at hitems
  omega

theorem ControlRun.Consistent.conserved {run : ControlRun Error}
    (h : run.Consistent) : run.Conserved run.queue.limits where
  usage := h.account.usage
  sources := ControlUsage.ext h.account.items_sum.symm h.account.bytes_sum.symm
  within := ⟨h.account.items_le, h.account.bytes_le⟩
  sourceWithin := h.account.source_le
  room := h.room
  order := h.order
  exited := by
    intro hexited
    have hfree := h.stopped (h.closing (by rw [hexited]; rfl))
    have hpending : run.pending = [] := by
      rw [pending, hexited, h.exited hexited, hfree]
      rfl
    rw [h.order, hpending, append_nil]
  barriers := by
    intro call before hlookup
    have hbefore := h.barriers _ _ hlookup
    rw [h.order, take_append_of_le_length (by rwa [length_map])]
    exact take_prefix _ _

/-- Whatever happens meanwhile, the messages admitted so far are completed when the worker
has had four turns for each that is not, and three more. -/
def ControlRun.EventuallyCompletes {Error : Type} (handler : ControlHandler Error)
    (run : ControlRun Error) : Prop :=
  ∀ later, 4 * (run.admitted.length - run.finished.length) + 3 ≤ run.turns handler later →
    run.admitted <+: (run.after handler later).finished.map Prod.fst

theorem ControlRun.Consistent.eventuallyCompletes {handler : ControlHandler Error}
    {run : ControlRun Error} (h : run.Consistent) : run.EventuallyCompletes handler := by
  intro later hturns
  have hrank : run.rank run.admitted.length ≤ run.turns handler later := by
    have hworker : run.worker.rank ≤ 3 := by cases run.worker <;> simp [Worker.rank]
    rw [rank]
    omega
  have hfinished := h.completes le_rfl _ hrank
  have hlater : (run.after handler later).Consistent := h.after _
  have hextends : run.Extends (run.after handler later) := run.extends_after _
  have hadmitted := hextends.admitted
  rw [hlater.order] at hadmitted
  exact prefix_of_prefix_length_le hadmitted (prefix_append _ _) (by rwa [length_map])

def acceptAll : ControlHandler Unit where
  accepts _ := true
  canceled _ := false

/-- One message through a queue, with a `Barrier` call that waits for it. -/
def oneMessage : List (ControlAction Unit) :=
  let message : ControlMessage :=
    { source := ⟨FixedBytes.zero 32, true⟩, message := ⟨⟨1, 1, 0⟩, [5, 6]⟩, nowMillis := 0
      fromFloodfill := false, privateStore := false }
  [.start false, .enqueue message, .barrier 7 false, .send, .turn 7 false, .work false none,
    .work false none, .work false none, .work false none, .wake 7 .progress, .turn 7 false]

end Ivnp.Router
