/-
# Condition variables, as specified

`kern/include/synch.h` specifies the operations of a condition variable and
leaves their code to be written. The specification is taken here as it
stands: `cv_wait` sleeps until another thread wakes it, `cv_signal` wakes one
sleeper, any one, `cv_broadcast` all of them, and nothing else wakes a
thread. With Mesa semantics a woken thread has to get the lock again before
it goes on, and others may hold the lock before it does.
-/
import Mathlib.Tactic

namespace Os161

variable {T : Type*}

/-- The threads asleep on the condition variable, and those woken that have
not got the lock back. -/
structure Cv (T : Type*) where
  sleeping : Finset T
  woken : Finset T

/-- The thread is not inside `cv_wait`. -/
def Cv.Outside (cv : Cv T) (t : T) : Prop := t ∉ cv.sleeping ∧ t ∉ cv.woken

variable [DecidableEq T]

/-- `cv_wait`, up to the loss of the lock. -/
def cvWait (t : T) (cv : Cv T) : Cv T := { cv with sleeping := insert t cv.sleeping }

/-- The return of `cv_wait`, with the lock. -/
def cvReturn (t : T) (cv : Cv T) : Cv T := { cv with woken := cv.woken.erase t }

/-- `cv_signal`: some sleeper is woken, if there is one. -/
def CvSignal (cv cv' : Cv T) : Prop :=
  (cv.sleeping = ∅ ∧ cv' = cv) ∨ ∃ t ∈ cv.sleeping, cv' = ⟨cv.sleeping.erase t, insert t cv.woken⟩

/-- `cv_broadcast`. -/
def cvBroadcast (cv : Cv T) : Cv T := ⟨∅, cv.woken ∪ cv.sleeping⟩

end Os161
