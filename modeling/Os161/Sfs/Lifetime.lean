/-
# The lifetime of a vnode

`vnode_incref`, `vnode_decref` and `vnode_cleanup` of `kern/vfs/vnode.c` with
`sfs_loadvnode` and `sfs_reclaim`, run by any number of threads. A step is a
section under the vnode's spinlock, or what is done under the big lock
between two such sections. The big lock is recursive and excludes other
threads, as its comment says (the code of locks is to be written).

`vnode_decref` that finds the last reference gives up the spinlock and passes
the reference to `sfs_reclaim`, which has to get the big lock first; until
then others can look the vnode up and release it again. The invariant
`LifeInv` counts the references that threads hold and those on their way
(`vnode_lifetime`).

The files themselves are left out: `sfs_reclaim` truncates and writes the
inode between its check and the removal from the table, under the big lock.
A vnode is an address; a new one is not the address of an earlier vnode.
-/
import Os161.Lib.Prog
import Os161.Lib.Run
import Os161.Lib.Census

namespace Os161

variable {T V : Type}

/-- Where a thread is: in `sfs_loadvnode` with the vnode found, on its way to
`sfs_reclaim`, in it before the check of the count, after the check, after
the removal from the table, or about to give up the big lock. -/
inductive LifePc (V : Type)
  | out
  | found (v : V)
  | reclaim (v : V)
  | check (v : V)
  | destroy (v : V)
  | cleanup (v : V)
  | leave

/-- The vnodes, the big lock, and the threads with the references they hold. -/
structure Life (T V : Type) where
  biglock : Option T
  biglockDepth : ℕ
  sfsVnodes : List V
  svIno : V → ℕ
  vnRefcount : V → ℕ
  created : V → Bool
  destroyed : V → ℕ
  held : T → V → ℕ
  pc : T → LifePc V

/-- A step of a thread. -/
inductive LifeAct (T V : Type)
  | biglockAcquire (t : T)
  | biglockRelease (t : T)
  | loadvnode (t : T) (ino : ℕ) (new : V)
  | loadvnodeIncref (t : T) (v : V)
  | incref (t : T) (v : V)
  | decref (t : T) (v : V)
  | pass (t u : T) (v : V)
  | reclaim (t : T) (v : V)
  | reclaimCheck (t : T) (v : V)
  | reclaimRemove (t : T) (v : V)
  | reclaimCleanup (t : T) (v : V)
  | reclaimLeave (t : T)

namespace Life

variable [DecidableEq T] [DecidableEq V]

/-- The thread goes on to `x`. -/
def goto (t : T) (x : LifePc V) : Prog Empty (Life T V) Unit :=
  Prog.modify fun s => { s with pc := Function.update s.pc t x }

/-- The number of references to `v` that `t` holds becomes `n`. -/
def setHeld (t : T) (v : V) (n : ℕ) (s : Life T V) : Life T V :=
  { s with held := Function.update s.held t (Function.update (s.held t) v n) }

/-- `vn_refcount` becomes `n`. -/
def setRefcount (v : V) (n : ℕ) (s : Life T V) : Life T V :=
  { s with vnRefcount := Function.update s.vnRefcount v n }

/-- `vfs_biglock_acquire`, once the lock is free or the thread's own. -/
def vfsBiglockAcquire (t : T) : Prog Empty (Life T V) Unit :=
  Prog.modify fun s => { s with biglock := some t, biglockDepth := s.biglockDepth + 1 }

/-- `vfs_biglock_release`. -/
def vfsBiglockRelease (t : T) : Prog Empty (Life T V) Unit := do
  let s ← Prog.get
  Prog.assert (s.biglock = some t)
  Prog.assert (0 < s.biglockDepth)
  Prog.modify fun s =>
    { s with
      biglock := if s.biglockDepth = 1 then none else s.biglock
      biglockDepth := s.biglockDepth - 1 }

/-- `sfs_loadvnode` up to `VOP_INCREF` of the vnode it finds, or to its end
with a new vnode. -/
def sfsLoadvnode (t : T) (ino : ℕ) (new : V) : Prog Empty (Life T V) Unit := do
  let s ← Prog.get
  match s.sfsVnodes.find? fun v => s.svIno v = ino with
  | some v => goto t (.found v)
  | none =>
    Prog.modify fun s =>
      { s.setHeld t new 1 with
        sfsVnodes := s.sfsVnodes ++ [new]
        svIno := Function.update s.svIno new ino
        -- `vnode_init`
        vnRefcount := Function.update s.vnRefcount new 1
        created := Function.update s.created new true }

/-- `vnode_incref`: the thread has one more reference. -/
def vnodeIncref (t : T) (v : V) : Prog Empty (Life T V) Unit :=
  Prog.modify fun s => (s.setRefcount v (s.vnRefcount v + 1)).setHeld t v (s.held t v + 1)

/-- `vnode_decref` up to its call of `VOP_RECLAIM`. -/
def vnodeDecref (t : T) (v : V) : Prog Empty (Life T V) Unit := do
  let s ← Prog.get
  Prog.assert (0 < s.vnRefcount v)
  Prog.modify fun s => s.setHeld t v (s.held t v - 1)
  if 1 < s.vnRefcount v then Prog.modify fun s => s.setRefcount v (s.vnRefcount v - 1)
  else goto t (.reclaim v)

/-- `sfs_reclaim`: the check of the count. -/
def sfsReclaimCheck (t : T) (v : V) : Prog Empty (Life T V) Unit := do
  let s ← Prog.get
  if s.vnRefcount v ≠ 1 then do
    -- consume the reference `VOP_DECREF` gave us
    Prog.assert (1 < s.vnRefcount v)
    Prog.modify fun s => s.setRefcount v (s.vnRefcount v - 1)
    goto t .leave
  else goto t (.destroy v)

/-- `sfs_reclaim`: the vnode leaves the table. -/
def sfsReclaimRemove (t : T) (v : V) : Prog Empty (Life T V) Unit := do
  let s ← Prog.get
  -- "reclaim vnode not in vnode pool"
  Prog.assert (v ∈ s.sfsVnodes)
  Prog.modify fun s => { s with sfsVnodes := s.sfsVnodes.erase v }
  goto t (.cleanup v)

/-- `vnode_cleanup`. -/
def vnodeCleanup (t : T) (v : V) : Prog Empty (Life T V) Unit := do
  let s ← Prog.get
  Prog.assert (s.vnRefcount v = 1)
  Prog.modify fun s => { s.setRefcount v 0 with destroyed := Function.update s.destroyed v (s.destroyed v + 1) }
  goto t .leave

end Life

open Life

variable [DecidableEq T] [DecidableEq V]

/-- The code of a step. -/
def LifeAct.code : LifeAct T V → Prog Empty (Life T V) Unit
  | .biglockAcquire t => vfsBiglockAcquire t
  | .biglockRelease t => vfsBiglockRelease t
  | .loadvnode t ino new => sfsLoadvnode t ino new
  | .loadvnodeIncref t v => do
    vnodeIncref t v
    goto t .out
  | .incref t v => vnodeIncref t v
  | .decref t v => vnodeDecref t v
  | .pass t u v => Prog.modify fun s =>
      let s' := s.setHeld t v (s.held t v - 1)
      s'.setHeld u v (s'.held u v + 1)
  | .reclaim t v => do
    vfsBiglockAcquire t
    goto t (.check v)
  | .reclaimCheck t v => sfsReclaimCheck t v
  | .reclaimRemove t v => sfsReclaimRemove t v
  | .reclaimCleanup t v => vnodeCleanup t v
  | .reclaimLeave t => do
    vfsBiglockRelease t
    goto t .out

omit [DecidableEq T] [DecidableEq V] in
/-- The big lock is free or the thread's own. -/
def Life.Acquirable (s : Life T V) (t : T) : Prop := s.biglock = none ∨ s.biglock = some t

omit [DecidableEq T] [DecidableEq V] in
/-- The thread is at the step. `sfs_loadvnode` is called under the big lock,
and a reference is taken, passed on to another thread or given up by a thread
that holds one. -/
def Life.Ready (s : Life T V) : LifeAct T V → Prop
  | .biglockAcquire t => s.pc t = .out ∧ s.Acquirable t
  | .biglockRelease t => s.pc t = .out ∧ s.biglock = some t
  | .loadvnode t _ new => s.pc t = .out ∧ s.biglock = some t ∧ s.created new = false
  | .loadvnodeIncref t v => s.pc t = .found v
  | .incref t v => s.pc t = .out ∧ 0 < s.held t v
  | .decref t v => s.pc t = .out ∧ 0 < s.held t v
  | .pass t _ v => s.pc t = .out ∧ 0 < s.held t v
  | .reclaim t v => s.pc t = .reclaim v ∧ s.Acquirable t
  | .reclaimCheck t v => s.pc t = .check v
  | .reclaimRemove t v => s.pc t = .destroy v
  | .reclaimCleanup t v => s.pc t = .cleanup v
  | .reclaimLeave t => s.pc t = .leave

/-- A thread takes a step. -/
def LifeStep (s : Life T V) (a : LifeAct T V) (s' : Life T V) : Prop := s.Ready a ∧ a.code s = .ok () s'

omit [DecidableEq T] [DecidableEq V] in
/-- A volume without vnodes, and nobody at work. -/
def lifeInit : Life T V where
  biglock := none
  biglockDepth := 0
  sfsVnodes := []
  svIno := fun _ => 0
  vnRefcount := fun _ => 0
  created := fun _ => false
  destroyed := fun _ => 0
  held := fun _ _ => 0
  pc := fun _ => .out

end Os161
