/-
# Threads on several processors

`kern/thread/thread.c`: `thread_fork`, `thread_make_runnable`, `thread_switch`
with its idle loop, `exorcise`, `wchan_wakeone`, `wchan_wakeall` and
`thread_consider_migration`, on any number of processors. A step is one line
of the code that touches shared data: a spinlock taken or given back, a thread
taken off a list or put on one, a field written. Steps of different
processors come in any order in which a spinlock is taken only when it is free.

At `base` a processor runs thread code, or waits in `cpu_idle` when
`c_isidle`; interrupt handlers run from there too, also in the idle loop. They
and the threads may take the spinlocks of wait channels, wake, migrate; only a
processor that is not idle forks and switches. A failed `KASSERT` stops the
kernel and is no step, except those on what is proved here.

Interrupt levels, inter-processor interrupts (`cpu_idle` may return any time),
names, stacks, processes and address spaces are left out. Between its creation
and `thread_make_runnable` a new thread is known to its parent only, which may
be moved to another processor in between: it waits on `born`.
-/
import Os161.Lib.Run

namespace Os161

/-- `threadstate_t`. -/
inductive ThreadState
  | run
  | ready
  | sleep
  | zombie
  deriving DecidableEq

/-- The lists of threads: the run queues, the wait channels, the zombies, the
private lists of `wchan_wakeall` and of `thread_consider_migration` on a
processor; and the new threads. -/
inductive ListId (n : ℕ) (W : Type)
  | runqueue (c : Fin n)
  | wchan (w : W)
  | zombies (c : Fin n)
  | wakeList (c : Fin n)
  | victims (c : Fin n)
  | born
  deriving DecidableEq

/-- What `thread_switch` is called for. -/
inductive Dest (W : Type)
  | ready
  | sleep (w : W)
  | zombie

/-- Who called `thread_make_runnable`. -/
inductive Caller (W : Type)
  | fork
  | wakeone (w : W)
  | wakeall (w : W)

/-- Where a processor is, with the local variables. -/
inductive CpuPc (n : ℕ) (W T : Type)
  | base
  -- thread_switch
  | place (dest : Dest W)
  | enqueueCur
  | unlockWc (w : W)
  | setState (st : ThreadState)
  | setIdle
  | pick
  | picked (next : T)
  | switchTo (next : T)
  | setRun
  | unlockRq
  | exorcise
  -- thread_make_runnable
  | runnable (target : T) (k : Caller W)
  | ready (target : T) (targetcpu : Fin n) (k : Caller W)
  | enqueue (target : T) (targetcpu : Fin n) (k : Caller W)
  | release (targetcpu : Fin n) (k : Caller W)
  -- wchan_wakeall
  | gather (w : W)
  | gathered (target : T) (w : W)
  | wakeAll (w : W)
  -- thread_consider_migration
  | count (i my total : ℕ)
  | counting (i : Fin n) (my total : ℕ)
  | takeLock (toSend share : ℕ)
  | take (i toSend share : ℕ)
  | taking (t : T) (i toSend share : ℕ)
  | send (i toSend share : ℕ)
  | sending (i : Fin n) (toSend share : ℕ)
  | sendHand (t : T) (i : Fin n) (toSend share : ℕ)
  | sent (t : T) (i : Fin n) (toSend share : ℕ)
  | putBack
  | putting (t : T)

/-- What a step does to the shared data. A list is given with what remains of
it or with its new contents. -/
inductive CpuEffect (n : ℕ) (W L T : Type)
  | skip
  | acquireRq (c : Fin n)
  | releaseRq (c : Fin n)
  | acquireWc (l : L)
  | releaseWc (l : L)
  | take (t : T) (p : ListId n W) (rest : List T)
  | put (t : T) (q : ListId n W) (new : List T)
  | fork (t : T) (q : ListId n W) (new : List T)
  | state (t : T) (st : ThreadState)
  | cpu (t : T) (c : Fin n)
  | idle (b : Bool)
  | current (t : T)
  | create (t : T)
  | destroy (t : T) (p : ListId n W) (rest : List T)

/-- The processors and the threads. `alive` are the thread structures in use,
`forked` those that `thread_fork` has put on a run queue. -/
structure Machine (n : ℕ) (W L T : Type) where
  pc : Fin n → CpuPc n W T
  cur : Fin n → T
  isIdle : Fin n → Bool
  rqLock : Fin n → Option (Fin n)
  wcLock : L → Option (Fin n)
  lists : ListId n W → List T
  tState : T → ThreadState
  tCpu : T → Fin n
  alive : T → Bool
  forked : T → Bool

variable {n : ℕ} {W L T : Type} [DecidableEq W] [DecidableEq L] [DecidableEq T]

/-- The state after a step of the processor `d` with the effect `e` that
leads to `pc'`. -/
def Machine.after (s : Machine n W L T) (d : Fin n) (e : CpuEffect n W L T) (pc' : CpuPc n W T) : Machine n W L T where
  pc := Function.update s.pc d pc'
  cur := match e with
    | .current t => Function.update s.cur d t
    | _ => s.cur
  isIdle := match e with
    | .idle b => Function.update s.isIdle d b
    | _ => s.isIdle
  rqLock := match e with
    | .acquireRq c => Function.update s.rqLock c (some d)
    | .releaseRq c => Function.update s.rqLock c none
    | _ => s.rqLock
  wcLock := match e with
    | .acquireWc l => Function.update s.wcLock l (some d)
    | .releaseWc l => Function.update s.wcLock l none
    | _ => s.wcLock
  lists := match e with
    | .take _ p rest | .destroy _ p rest => Function.update s.lists p rest
    | .put _ q new | .fork _ q new => Function.update s.lists q new
    | .create t => Function.update s.lists .born (t :: s.lists .born)
    | _ => s.lists
  tState := match e with
    | .state t st => Function.update s.tState t st
    | .create t => Function.update s.tState t .ready
    | _ => s.tState
  tCpu := match e with
    | .cpu t c => Function.update s.tCpu t c
    | .create t => Function.update s.tCpu t (s.tCpu (s.cur d))
    | _ => s.tCpu
  alive := match e with
    | .create t => Function.update s.alive t true
    | .destroy t _ _ => Function.update s.alive t false
    | _ => s.alive
  forked := match e with
    | .fork t _ _ => Function.update s.forked t true
    | .destroy t _ _ => Function.update s.forked t false
    | _ => s.forked

/-- A spinlock is taken when it is free. -/
def Machine.Free (s : Machine n W L T) : CpuEffect n W L T → Prop
  | .acquireRq c => s.rqLock c = none
  | .acquireWc l => s.wcLock l = none
  | _ => True

/-- Where `thread_make_runnable` returns to. -/
def Caller.back : Caller W → CpuPc n W T
  | .fork | .wakeone _ => .base
  | .wakeall w => .wakeAll w

/-- The code, line by line, on the processor `d`. A wait channel `w` is used
with the spinlock `lk w`. -/
inductive CpuStep (lk : W → L) (s : Machine n W L T) (d : Fin n) :
    CpuPc n W T → CpuEffect n W L T → CpuPc n W T → Prop
  -- spinlock_acquire and spinlock_release of a wait channel's lock
  | lockWc (l : L) : CpuStep lk s d .base (.acquireWc l) .base
  | freeWc {l : L} : s.wcLock l = some d → CpuStep lk s d .base (.releaseWc l) .base
  -- thread_yield, wchan_sleep, thread_exit: thread_switch takes the run queue lock
  | yield : s.isIdle d = false → CpuStep lk s d .base (.acquireRq d) (.place .ready)
  | sleep {w : W} : s.isIdle d = false → s.wcLock (lk w) = some d → (∀ l, s.wcLock l = some d → l = lk w) →
      CpuStep lk s d .base (.acquireRq d) (.place (.sleep w))
  | exit : s.isIdle d = false → CpuStep lk s d .base (.acquireRq d) (.place .zombie)
  -- the rest of thread_switch
  | nothingToDo : s.lists (.runqueue d) = [] → CpuStep lk s d (.place .ready) (.releaseRq d) .base
  | placeReady : s.lists (.runqueue d) ≠ [] → s.rqLock (s.tCpu (s.cur d)) = some d →
      CpuStep lk s d (.place .ready) (.state (s.cur d) .ready) .enqueueCur
  | enqueueCur : CpuStep lk s d .enqueueCur
      (.put (s.cur d) (.runqueue (s.tCpu (s.cur d))) (s.lists (.runqueue (s.tCpu (s.cur d))) ++ [s.cur d]))
      (.setState .ready)
  | placeSleep {w : W} : CpuStep lk s d (.place (.sleep w))
      (.put (s.cur d) (.wchan w) (s.lists (.wchan w) ++ [s.cur d])) (.unlockWc w)
  | unlockWc {w : W} : CpuStep lk s d (.unlockWc w) (.releaseWc (lk w)) (.setState .sleep)
  | placeZombie : CpuStep lk s d (.place .zombie)
      (.put (s.cur d) (.zombies d) (s.lists (.zombies d) ++ [s.cur d])) (.setState .zombie)
  | setState {st : ThreadState} : CpuStep lk s d (.setState st) (.state (s.cur d) st) .setIdle
  | setIdle : CpuStep lk s d .setIdle (.idle true) .pick
  | pick {next : T} {rest : List T} : s.lists (.runqueue d) = next :: rest →
      CpuStep lk s d .pick (.take next (.runqueue d) rest) (.picked next)
  | goIdle : s.lists (.runqueue d) = [] → CpuStep lk s d .pick (.releaseRq d) .base
  | unidle : s.isIdle d = true → CpuStep lk s d .base (.acquireRq d) .pick
  | picked {next : T} : CpuStep lk s d (.picked next) (.idle false) (.switchTo next)
  | switchTo {next : T} : CpuStep lk s d (.switchTo next) (.current next) .setRun
  -- after the switch, and thread_startup
  | setRun : CpuStep lk s d .setRun (.state (s.cur d) .run) .unlockRq
  | unlockRq : CpuStep lk s d .unlockRq (.releaseRq d) .exorcise
  | exorcise {z : T} {rest : List T} : s.lists (.zombies d) = z :: rest →
      CpuStep lk s d .exorcise (.destroy z (.zombies d) rest) .exorcise
  | exorcised : s.lists (.zombies d) = [] → CpuStep lk s d .exorcise .skip .base
  -- thread_fork
  | create {t : T} : s.isIdle d = false → s.alive t = false → CpuStep lk s d .base (.create t) .base
  | forkFails {t : T} {rest : List T} : s.isIdle d = false → (s.lists .born).Perm (t :: rest) →
      CpuStep lk s d .base (.destroy t .born rest) .base
  | fork {t : T} {rest : List T} : s.isIdle d = false → (s.lists .born).Perm (t :: rest) →
      CpuStep lk s d .base (.take t .born rest) (.runnable t .fork)
  -- thread_make_runnable
  | makeRunnable {target : T} {k : Caller W} :
      CpuStep lk s d (.runnable target k) (.acquireRq (s.tCpu target)) (.ready target (s.tCpu target) k)
  | setReady {target : T} {c : Fin n} {k : Caller W} :
      CpuStep lk s d (.ready target c k) (.state target .ready) (.enqueue target c k)
  | enqueueNew {target : T} {c : Fin n} : CpuStep lk s d (.enqueue target c .fork)
      (.fork target (.runqueue c) (s.lists (.runqueue c) ++ [target])) (.release c .fork)
  | enqueue {target : T} {c : Fin n} {k : Caller W} : k ≠ .fork → CpuStep lk s d (.enqueue target c k)
      (.put target (.runqueue c) (s.lists (.runqueue c) ++ [target])) (.release c k)
  | release {c : Fin n} {k : Caller W} : CpuStep lk s d (.release c k) (.releaseRq c) k.back
  -- wchan_wakeone
  | wakeone {w : W} {target : T} {rest : List T} : s.wcLock (lk w) = some d → s.lists (.wchan w) = target :: rest →
      CpuStep lk s d .base (.take target (.wchan w) rest) (.runnable target (.wakeone w))
  -- wchan_wakeall
  | wakeall {w : W} : s.wcLock (lk w) = some d → CpuStep lk s d .base .skip (.gather w)
  | gather {w : W} {target : T} {rest : List T} : s.lists (.wchan w) = target :: rest →
      CpuStep lk s d (.gather w) (.take target (.wchan w) rest) (.gathered target w)
  | gathered {w : W} {target : T} : CpuStep lk s d (.gathered target w)
      (.put target (.wakeList d) (s.lists (.wakeList d) ++ [target])) (.gather w)
  | gatheredAll {w : W} : s.lists (.wchan w) = [] → CpuStep lk s d (.gather w) .skip (.wakeAll w)
  | wakeNext {w : W} {target : T} {rest : List T} : s.lists (.wakeList d) = target :: rest →
      CpuStep lk s d (.wakeAll w) (.take target (.wakeList d) rest) (.runnable target (.wakeall w))
  | wokenAll {w : W} : s.lists (.wakeList d) = [] → CpuStep lk s d (.wakeAll w) .skip .base
  -- thread_consider_migration
  | migrate : CpuStep lk s d .base .skip (.count 0 0 0)
  | count {i : Fin n} {my total : ℕ} : CpuStep lk s d (.count i my total) (.acquireRq i) (.counting i my total)
  | counted {i : Fin n} {my total : ℕ} : CpuStep lk s d (.counting i my total) (.releaseRq i)
      (.count (i + 1) (if i = d then (s.lists (.runqueue i)).length else my) (total + (s.lists (.runqueue i)).length))
  | tooFew {my total : ℕ} : my < (total + n - 1) / n → CpuStep lk s d (.count n my total) .skip .base
  | enough {my total : ℕ} : (total + n - 1) / n ≤ my → CpuStep lk s d (.count n my total) .skip
      (.takeLock (my - (total + n - 1) / n) ((total + n - 1) / n))
  | takeLock {toSend share : ℕ} : CpuStep lk s d (.takeLock toSend share) (.acquireRq d) (.take 0 toSend share)
  | takeVictim {i toSend share : ℕ} {t : T} {rest : List T} : i < toSend → s.lists (.runqueue d) = rest ++ [t] →
      CpuStep lk s d (.take i toSend share) (.take t (.runqueue d) rest) (.taking t i toSend share)
  | victim {i toSend share : ℕ} {t : T} : CpuStep lk s d (.taking t i toSend share)
      (.put t (.victims d) (t :: s.lists (.victims d))) (.take (i + 1) toSend share)
  | taken {i toSend share : ℕ} : toSend ≤ i → CpuStep lk s d (.take i toSend share) (.releaseRq d) (.send 0 toSend share)
  | sendSelf {toSend share : ℕ} : 0 < toSend → CpuStep lk s d (.send d toSend share) .skip (.send (d + 1) toSend share)
  | sendOther {i : Fin n} {toSend share : ℕ} : 0 < toSend → i ≠ d →
      CpuStep lk s d (.send i toSend share) (.acquireRq i) (.sending i toSend share)
  | sendNext {i : Fin n} {toSend share : ℕ} {t : T} {rest : List T} : (s.lists (.runqueue i)).length < share →
      0 < toSend → s.lists (.victims d) = t :: rest →
      CpuStep lk s d (.sending i toSend share) (.take t (.victims d) rest) (.sendHand t i toSend share)
  | keepCur {i : Fin n} {toSend share : ℕ} {t : T} : t = s.cur d → CpuStep lk s d (.sendHand t i toSend share)
      (.put t (.victims d) (s.lists (.victims d) ++ [t])) (.sending i (toSend - 1) share)
  | moveCpu {i : Fin n} {toSend share : ℕ} {t : T} : t ≠ s.cur d →
      CpuStep lk s d (.sendHand t i toSend share) (.cpu t i) (.sent t i toSend share)
  | sent {i : Fin n} {toSend share : ℕ} {t : T} : CpuStep lk s d (.sent t i toSend share)
      (.put t (.runqueue i) (s.lists (.runqueue i) ++ [t])) (.sending i (toSend - 1) share)
  | sendDone {i : Fin n} {toSend share : ℕ} : share ≤ (s.lists (.runqueue i)).length ∨ toSend = 0 →
      CpuStep lk s d (.sending i toSend share) (.releaseRq i) (.send (i + 1) toSend share)
  | leftovers {i toSend share : ℕ} : n ≤ i ∨ toSend = 0 → s.lists (.victims d) ≠ [] →
      CpuStep lk s d (.send i toSend share) (.acquireRq d) .putBack
  | noLeftovers {i toSend share : ℕ} : n ≤ i ∨ toSend = 0 → s.lists (.victims d) = [] →
      CpuStep lk s d (.send i toSend share) .skip .base
  | putBack {t : T} {rest : List T} : s.lists (.victims d) = t :: rest →
      CpuStep lk s d .putBack (.take t (.victims d) rest) (.putting t)
  | putting {t : T} : CpuStep lk s d (.putting t)
      (.put t (.runqueue d) (s.lists (.runqueue d) ++ [t])) .putBack
  | putAll : s.lists (.victims d) = [] → CpuStep lk s d .putBack (.releaseRq d) .base

/-- One step of some processor. -/
inductive MachineStep (lk : W → L) : Machine n W L T → Fin n × CpuEffect n W L T → Machine n W L T → Prop
  | step {s : Machine n W L T} {d : Fin n} {e : CpuEffect n W L T} {pc' : CpuPc n W T} : s.Free e →
      CpuStep lk s d (s.pc d) e pc' → MachineStep lk s (d, e) (s.after d e pc')

/-- After `thread_bootstrap` and the start of the other processors: each runs
its boot thread, in the state that `thread_create` gave it. -/
def machineInit (W L : Type) (boot : Fin n → T) (cpuOf : T → Fin n) : Machine n W L T where
  pc := fun _ => .base
  cur := boot
  isIdle := fun _ => false
  rqLock := fun _ => none
  wcLock := fun _ => none
  lists := fun _ => []
  tState := fun _ => .ready
  tCpu := cpuOf
  alive := fun t => decide (∃ c, boot c = t)
  forked := fun _ => false

end Os161
