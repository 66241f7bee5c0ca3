/-
# `IshGo.Kernel.Unnoticed` — what reads and writes do not look at

A change of the kernel record is `Unnoticed` if it leaves the terminal and can be made before or after
a signal is queued.  The parts of the reads and writes, and the loops of `readv` and `writev`, do after
such a change what they do before it.
-/
import IshGo.Kernel.FileIO
import IshGo.Lib.Commutes

namespace IshGo.Kernel

open I386 Lib KState

def KState.onKern (f : Kernel → Kernel) (s : KState) : KState := { s with kern := f s.kern }

class Unnoticed (f : Kernel → Kernel) : Prop where
  tty : ∀ k, (f k).tty = k.tty
  queueSignal : ∀ k signal, (f k).queueSignal signal = f (k.queueSignal signal)

variable {f : Kernel → Kernel}

instance (v : U32) : Commutes (onKern f) (ret v) := ⟨fun _ => rfl⟩

instance (addr : U32) (value : List U8) : Commutes (onKern f) (memWriteBytes addr value) where
  commutes s := by
    unfold memWriteBytes
    show (match s.mem.writeBytes addr value with | .ok mem => _ | .error _ => _) = _
    cases s.mem.writeBytes addr value with
    | ok mem => rfl
    | error e => rfl

instance {α : Type} (x : ObjM α) : Commutes (onKern f) (onObjs x) where
  commutes s := by
    unfold onObjs
    show (match x s.objs with | .ok a o => _ | .error e o => _) = _
    cases x s.objs with
    | ok a o => rfl
    | error e o => rfl

instance (log : Option Transfer → HandleCall) (x : ObjM Transfer) : Commutes (onKern f) (onHandle log x) where
  commutes s := by
    unfold onHandle
    show (match x s.objs with | .ok a o => _ | .error e o => _) = _
    cases x s.objs with
    | ok a o => rfl
    | error e o => rfl

instance (total e : U32) : Commutes (onKern f) (retTotal total e) := by
  unfold retTotal
  infer_instance

instance (host : Host) (e : Endpoint) (len : Nat) : Commutes (onKern f) (readFrom host e len) := by
  unfold readFrom
  infer_instance

instance (host : Host) (e : Endpoint) (data : List U8) : Commutes (onKern f) (writeTo host e data) := by
  unfold writeTo
  infer_instance

instance (addr : U32) (r : Transfer) : Commutes (onKern f) (storeRead addr r) := by
  unfold storeRead
  split <;> infer_instance

instance (base total : U32) (len : Nat) (r : Transfer) (next : U32 → KernelM Unit)
    [∀ total, Commutes (onKern f) (next total)] : Commutes (onKern f) (storeReadv base total len r next) := by
  unfold storeReadv
  split <;> infer_instance

instance (total : U32) (len : Nat) (r : Transfer) (next : U32 → KernelM Unit)
    [∀ total, Commutes (onKern f) (next total)] : Commutes (onKern f) (nextWritev total len r next) := by
  dsimp only [nextWritev]
  infer_instance

section Terminal
variable [hf : Unnoticed f]

instance (signal : Nat) : Commutes (onKern f) (queueSignal signal) where
  commutes s := by
    show EStateM.Result.ok () { s with kern := (f s.kern).queueSignal signal } = _
    rw [hf.queueSignal]
    rfl

theorem readSource_onKern (s : KState) (fd : Int) (aware : Bool) :
    (s.onKern f).readSource fd aware = s.readSource fd aware := by
  have htty : (s.onKern f).kern.tty = s.kern.tty := hf.tty s.kern
  have hentry (h : Handle) : (s.onKern f).readEntry aware h = s.readEntry aware h := by
    unfold readEntry
    rw [htty]
  unfold readSource
  rw [htty]
  simp only [hentry]
  rfl

theorem writeTarget_onKern (s : KState) (fd : Int) : (s.onKern f).writeTarget fd = s.writeTarget fd := by
  unfold writeTarget
  rw [show (s.onKern f).kern.tty = s.kern.tty from hf.tty s.kern]
  rfl

instance (host : Host) (fd : Int) (iov : U32) (n : Nat) :
    ∀ i total, Commutes (onKern f) (handleReadvLoop host fd iov n i total) := by
  induction n with
  | zero =>
    intro i total
    unfold handleReadvLoop
    infer_instance
  | succ n ih =>
    intro i total
    unfold handleReadvLoop
    refine Commutes.get_bind (fun s => ?_) fun s => ?_
    · rw [readSource_onKern]
      rfl
    split
    · infer_instance
    · split <;> infer_instance

instance (host : Host) (fd : Int) (data : List U8) : Commutes (onKern f) (writeBytes host fd data) := by
  unfold writeBytes
  refine Commutes.get_bind (fun s => ?_) fun s => ?_
  · rw [writeTarget_onKern]
  split <;> infer_instance

instance (host : Host) (fd : Int) (iov : U32) (n : Nat) :
    ∀ i total, Commutes (onKern f) (handleWritevLoop host fd iov n i total) := by
  induction n with
  | zero =>
    intro i total
    unfold handleWritevLoop
    infer_instance
  | succ n ih =>
    intro i total
    unfold handleWritevLoop
    refine Commutes.get_bind (fun _ => rfl) fun s => ?_
    split <;> infer_instance

end Terminal

end IshGo.Kernel
