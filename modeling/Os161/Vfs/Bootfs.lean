/-
# The boot file system

`vfs_setbootfs` of `kern/vfs/vfslookup.c`. The name goes into a buffer of
`NAME_MAX + 1` bytes, of which `snprintf` may fill all but the last, NUL
included; a colon is put after it unless it has one, and the result is the new
current directory and the new boot file system.

The test for a colon that is not the last byte takes the length of the string
from the colon on, the colon included. So it rejects every name with a colon:
a name is taken without its colon, and never with it.
-/
import Mathlib.Data.List.TakeWhile
import Os161.Vfs.Path

namespace Os161

variable {σ V F : Type} (ops : VnodeOps σ V F)

/-- `change_bootfs`. -/
def changeBootfs (newvn : Option V) : Prog Errno (Kernel σ V F) Unit := do
  let oldvn ← Prog.gets Kernel.bootfsVnode
  Prog.modify fun s => { s with bootfsVnode := newvn }
  match oldvn with
  | some v => vopDecref ops v
  | none => pure ()

/-- `vfs_setbootfs` from `vfs_chdir` on. -/
def setbootfsTo (tmp : CStr) : Prog Errno (Kernel σ V F) Unit := do
  vfsChdir ops tmp
  let newguy ← vfsGetcurdir ops
  changeBootfs ops (some newguy)

/-- What `snprintf` leaves of the name in `tmp`. -/
def bootfsName (fsname : CStr) : CStr := fsname.take (nameMax - 1)

/-- `vfs_setbootfs`. -/
def vfsSetbootfs (fsname : CStr) : Prog Errno (Kernel σ V F) Unit :=
  let tmp := bootfsName fsname
  -- `strchr`
  let s := tmp.dropWhile fun c => c ≠ colon
  if colon ∈ tmp then
    if 0 < s.length then Prog.fail .einval else setbootfsTo ops tmp
  else setbootfsTo ops (tmp ++ [colon])

/-- `vfs_clearbootfs`. -/
def vfsClearbootfs : Prog Errno (Kernel σ V F) Unit := changeBootfs ops none

/-- The result code, the current directory and the boot file system after a
run. -/
def bootfsResult : Outcome Errno (Kernel σ V F) Unit → Option (Except Errno Unit × Option V × Option V)
  | .ok _ t => some (.ok (), t.pCwd, t.bootfsVnode)
  | .fail e t => some (.error e, t.pCwd, t.bootfsVnode)
  | .stop => none

variable {ops}

/-- A name with a colon is rejected. -/
theorem vfsSetbootfs_of_colon {fsname : CStr} (h : colon ∈ bootfsName fsname) :
    vfsSetbootfs ops fsname = Prog.fail .einval := by
  have hlen : 0 < ((bootfsName fsname).dropWhile fun c => c ≠ colon).length := by
    rw [List.length_pos_iff, Ne, List.dropWhile_eq_nil_iff]
    intro hall
    simpa using hall colon h
  unfold vfsSetbootfs
  rw [if_pos h, if_pos hlen]

theorem vfsSetbootfs_of_not_colon {fsname : CStr} (h : colon ∉ bootfsName fsname) :
    vfsSetbootfs ops fsname = setbootfsTo ops (bootfsName fsname ++ [colon]) := by
  unfold vfsSetbootfs
  rw [if_neg h]

/-- A kernel with no devices, no current directory and no boot file system. -/
def emptyKernel (V F : Type) (x : σ) : Kernel σ V F := ⟨x, [], none, none⟩

variable (ops) in
/-- Where nothing is attached, no path starts. -/
theorem getdevice_emptyKernel {path : CStr} (hne : path ≠ []) (x : σ) :
    ∃ e, getdevice ops path (emptyKernel V F x) = .fail e (emptyKernel V F x) ∧ e ≠ .einval := by
  unfold getdevice
  rw [if_neg hne]
  split_ifs
  · exact ⟨.enoent, rfl, by decide⟩
  · exact ⟨.enodev, rfl, by decide⟩
  · exact ⟨.enoent, rfl, by decide⟩
  · exact ⟨.enoent, rfl, by decide⟩

variable (ops) in
theorem setbootfsTo_emptyKernel {path : CStr} (hne : path ≠ []) (x : σ) :
    ∃ e, setbootfsTo ops path (emptyKernel V F x) = .fail e (emptyKernel V F x) ∧ e ≠ .einval := by
  obtain ⟨e, he, hne⟩ := getdevice_emptyKernel ops hne x
  refine ⟨e, ?_, hne⟩
  unfold setbootfsTo vfsChdir vfsLookup
  exact Prog.bind_of_fail (Prog.bind_of_fail (Prog.bind_of_fail he _) _) _

/-- A name is rejected in every state exactly if what is kept of it has a
colon. -/
theorem vfsSetbootfs_rejects_iff (fsname : CStr) (x : σ) :
    (∀ s : Kernel σ V F, vfsSetbootfs ops fsname s = .fail .einval s) ↔ colon ∈ bootfsName fsname := by
  constructor
  · intro h
    by_contra hc
    obtain ⟨e, he, hne⟩ := setbootfsTo_emptyKernel ops (show bootfsName fsname ++ [colon] ≠ [] by simp) x
    have := h (emptyKernel V F x)
    rw [vfsSetbootfs_of_not_colon hc, he] at this
    cases this
    exact hne rfl
  · intro h s
    rw [vfsSetbootfs_of_colon h]
    rfl

/-- **With its colon a name is never taken.** For every name without a colon
the two calls differ in some state: the one with the colon is rejected in
every state, the other is not. A name is rejected for its colon exactly if the
colon is in the part of it that the buffer keeps. -/
theorem vfsSetbootfs_colon_differs (ops : VnodeOps σ V F) (x : σ) :
    (∀ name, colon ∉ name → name.length < nameMax - 1 →
      (∀ s : Kernel σ V F, vfsSetbootfs ops (name ++ [colon]) s = .fail .einval s) ∧
      ¬ ∀ s : Kernel σ V F,
        bootfsResult (vfsSetbootfs ops name s) = bootfsResult (vfsSetbootfs ops (name ++ [colon]) s)) ∧
    (∀ fsname, (∀ s : Kernel σ V F, vfsSetbootfs ops fsname s = .fail .einval s) ↔
      colon ∈ fsname.take (nameMax - 1)) := by
  refine ⟨fun name hc hlen => ?_, fun fsname => vfsSetbootfs_rejects_iff fsname x⟩
  have hkept : bootfsName name = name := List.take_of_length_le (by omega)
  have hkept' : bootfsName (name ++ [colon]) = name ++ [colon] := List.take_of_length_le (by simp; omega)
  have hrejects : ∀ s : Kernel σ V F, vfsSetbootfs ops (name ++ [colon]) s = .fail .einval s :=
    (vfsSetbootfs_rejects_iff (name ++ [colon]) x).mpr (by simp [hkept'])
  refine ⟨hrejects, fun h => ?_⟩
  obtain ⟨e, he, hne⟩ := setbootfsTo_emptyKernel ops (show name ++ [colon] ≠ [] by simp) x
  have hx := h (emptyKernel V F x)
  rw [hrejects, vfsSetbootfs_of_not_colon (by rw [hkept]; exact hc), hkept, he] at hx
  cases hx
  exact hne rfl

/-- A file system whose root is a directory, with nothing else in it. -/
def rootOnly : VnodeOps Unit Unit Unit where
  vnFs _ := some ()
  kdVnode _ := ()
  incref _ := pure ()
  decref _ := pure ()
  volname _ := none
  getroot _ := pure ()
  lookup _ _ := Prog.fail .enoent
  lookparent _ _ _ := Prog.fail .enoent
  eachopen _ _ := pure ()
  gettype _ := pure sIfdir
  truncate _ _ := Prog.fail .einval
  creat _ _ _ _ := Prog.fail .einval
  link _ _ _ := Prog.fail .einval
  remove _ _ := Prog.fail .einval
  rename _ _ _ _ := Prog.fail .einval

/-- It is mounted on the device `a`. -/
def mountedA : Kernel Unit Unit Unit := ⟨(), [⟨[97], some [97, 114, 97, 119], some (), 0, .fs ()⟩], none, none⟩

/-- The file system mounted on `a` can boot as `a`, and not as `a:`. -/
theorem vfsSetbootfs_mountedA :
    bootfsResult (vfsSetbootfs rootOnly [97] mountedA) = some (.ok (), some (), some ()) ∧
    bootfsResult (vfsSetbootfs rootOnly [97, colon] mountedA) = some (.error .einval, none, none) := by
  exact ⟨rfl, rfl⟩

/-- The statement at a name of one byte. -/
theorem vfsSetbootfs_colon_differs_a :
    ¬ ∀ s, bootfsResult (vfsSetbootfs rootOnly [97] s) = bootfsResult (vfsSetbootfs rootOnly [97, colon] s) :=
  ((vfsSetbootfs_colon_differs rootOnly ()).1 [97] (by decide) (by decide)).2

end Os161
