/-
# `IshGo.Kernel.Frame` — what reads, writes and seeks leave alone

A read or a write moves bytes, may block the task and may queue a signal.  It does not
touch a descriptor table, it makes and closes no handle, and the counts of a pipe stay
what they are.
-/
import IshGo.Kernel.Delivery
import IshGo.Kernel.Ends

namespace IshGo.Kernel

open I386 Lib Stays

variable {p : Pipe} {s s' : KState}

/-! ## Pipes -/

def Pipe.SameEnds (p p' : Pipe) : Prop := p'.readers = p.readers ∧ p'.writers = p.writers

namespace Pipe

theorem sameEnds_getD {found : Option (Transfer × Pipe)} {t : Transfer}
    (h : ∀ t' p', found = some (t', p') → p.SameEnds p') : p.SameEnds (found.getD (t, p)).2 := by
  cases found with
  | none => exact ⟨rfl, rfl⟩
  | some r => exact h r.1 r.2 rfl

theorem sameEnds_readNonblocking (p : Pipe) (len : Nat) : p.SameEnds (p.readNonblocking len).2 :=
  sameEnds_getD fun _ _ h => (readSection_ends h).1

theorem sameEnds_writeNonblocking (p : Pipe) (src : List U8) : p.SameEnds (p.writeNonblocking src).2 :=
  sameEnds_getD fun _ _ h => (writeSection_ends h).1

theorem sameEnds_readTurn (p : Pipe) (nonblock : Bool) (len : Nat) :
    p.SameEnds (p.readTurn nonblock len).2.2 := by
  rw [readTurn]
  cases h : p.readSection len with
  | none => exact ⟨rfl, rfl⟩
  | some r => exact (readSection_ends h).1

theorem sameEnds_writeTurn (p : Pipe) (nonblock : Bool) (src : List U8) (written : Nat) :
    p.SameEnds (p.writeTurn nonblock src written).2.2 := by
  rw [writeTurn]
  cases h : p.writeSection (src.drop written) with
  | none => exact ⟨rfl, rfl⟩
  | some r =>
    simp only
    split
    · exact (writeSection_ends h).1
    · split
      · exact (writeSection_ends h).1
      · exact (writeSection_ends h).1

end Pipe

/-! ## Objects -/

namespace Objects

instance : Std.Refl SameCounts := ⟨fun _ => ⟨fun _ _ => rfl, rfl, rfl, rfl⟩⟩

instance : IsTrans Objects SameCounts :=
  ⟨fun _ _ _ h h' => ⟨fun p w => (h'.count p w).trans (h.count p w), h'.ends.trans h.ends,
    h'.nextPipe.trans h.nextPipe, h'.nextEnd.trans h.nextEnd⟩⟩

theorem sameCounts_setPipe {o : Objects} {id : Nat} (h : (o.pipes id).SameEnds p) :
    o.SameCounts (o.setPipe id p) := by
  refine ⟨fun q write => ?_, rfl, rfl, rfl⟩
  by_cases hq : q = id
  · subst hq
    simp only [count, setPipe, Function.update_self, h.1, h.2]
  · simp only [count, setPipe, Function.update_of_ne hq]

end Objects

open Objects (SameCounts)

theorem stays_get_modify {α : Type} {R : Objects → Objects → Prop} [IsTrans Objects R]
    {f : Objects → Objects → Objects} {g : Objects → ObjM α} (hf : ∀ o, R o (f o o))
    [hg : ∀ o, Stays R (g o)] : Stays R (do let o ← get; modify (f o); g o : ObjM α) where
  stays o := IsTrans.trans o (f o o) _ (hf o) (stays (x := g o) (f o o))

instance : Stays SameCounts hostCall := ⟨fun _ => ⟨fun _ _ => rfl, rfl, rfl, rfl⟩⟩

instance (id : Nat) (r : Transfer × Terminal) : Stays SameCounts (finishRead id r) :=
  ⟨fun _ => ⟨fun _ _ => rfl, rfl, rfl, rfl⟩⟩

instance (id : Nat) (data : List U8) : Stays SameCounts (writeOutput id data) :=
  ⟨fun _ => ⟨fun _ _ => rfl, rfl, rfl, rfl⟩⟩

instance (host : Host) (id : Nat) (context : Bool) (len : Nat) :
    Stays SameCounts (readInput host id context len) where
  stays o := by
    have hrefl : SameCounts o o := ⟨fun _ _ => rfl, rfl, rfl, rfl⟩
    unfold readInput
    split
    · exact hrefl
    show SameCounts o (after (match (o.terminals id).readTurn len with
      | some r => finishRead id r
      | none => _) o)
    cases (o.terminals id).readTurn len with
    | some r => exact stays (x := finishRead id r) o
    | none =>
      -- the wait is one call to the host, and the terminal is what it then is
      show SameCounts o (after (match (host.wake o.tick (o.terminals id)).readTurn len with
        | some r => finishRead id r
        | none => _) (o.nextTick.setTerminal id (host.wake o.tick (o.terminals id))))
      cases (host.wake o.tick (o.terminals id)).readTurn len with
      | some r => exact ⟨fun _ _ => rfl, rfl, rfl, rfl⟩
      | none =>
        simp only
        split
        · exact ⟨fun _ _ => rfl, rfl, rfl, rfl⟩
        · exact ⟨fun _ _ => rfl, rfl, rfl, rfl⟩

instance (id len : Nat) : Stays SameCounts (pipeReadNonblocking id len) := by
  unfold pipeReadNonblocking
  refine bind_of fun o => ?_
  dsimp only
  split
  · infer_instance
  split
  · infer_instance
  · exact stays_get_modify fun o' => Objects.sameCounts_setPipe (Pipe.sameEnds_readNonblocking _ len)

instance (id : Nat) (src : List U8) : Stays SameCounts (pipeWriteNonblocking id src) := by
  unfold pipeWriteNonblocking
  refine bind_of fun o => ?_
  dsimp only
  split
  · infer_instance
  split
  · infer_instance
  · exact stays_get_modify fun o' => Objects.sameCounts_setPipe (Pipe.sameEnds_writeNonblocking _ src)

instance (id len : Nat) : Stays SameCounts (pipeRead id len) := by
  unfold pipeRead
  refine bind_of fun o => ?_
  dsimp only
  split
  · infer_instance
  split
  · infer_instance
  refine @stays_get_modify _ _ _ _ _
    (fun o' => Objects.sameCounts_setPipe (Pipe.sameEnds_readTurn _ _ len)) fun o' => ?_
  split <;> infer_instance

instance (e : PipeEnd) (src : List U8) (fuel : Nat) :
    ∀ written, Stays SameCounts (pipeWriteLoop e src fuel written) := by
  induction fuel with
  | zero =>
    intro written
    unfold pipeWriteLoop
    infer_instance
  | succ fuel ih =>
    intro written
    unfold pipeWriteLoop
    refine @stays_get_modify _ _ _ _ _
      (fun o' => Objects.sameCounts_setPipe (Pipe.sameEnds_writeTurn _ _ src written)) fun o' => ?_
    split
    · infer_instance
    · exact ih _
    · infer_instance

instance (id : Nat) (src : List U8) : Stays SameCounts (pipeWrite id src) := by
  unfold pipeWrite
  infer_instance

instance (id len : Nat) : Stays SameCounts (virtualRead id len) where
  stays o := by
    unfold virtualRead
    show SameCounts o (after (if (o.virtuals id).offset ≥ (o.virtuals id).data.length then _ else _) o)
    split
    · exact ⟨fun _ _ => rfl, rfl, rfl, rfl⟩
    · exact ⟨fun _ _ => rfl, rfl, rfl, rfl⟩

instance (host : Host) (len : Nat) (h : Handle) : Stays SameCounts (h.read host len) := by
  cases h <;> unfold Handle.read <;> infer_instance

instance (host : Host) (data : List U8) (h : Handle) : Stays SameCounts (h.write host data) := by
  cases h <;> unfold Handle.write <;> infer_instance

instance (id : Nat) (offset whence : Int) : Stays SameCounts (Handle.virtualSeek id offset whence) where
  stays o := by
    show SameCounts o (after (match (if whence = 0 then some 0
      else if whence = 1 then some (o.virtuals id).offset
      else if whence = 2 then some (o.virtuals id).data.length else none : Option Int) with
      | none => pure _
      | some base => _ : ObjM (Except IOErr Int)) o)
    split
    · exact Std.Refl.refl o
    · split
      · exact Std.Refl.refl o
      · exact ⟨fun _ _ => rfl, rfl, rfl, rfl⟩

instance (host : Host) (offset whence : Int) (h : Handle) : Stays SameCounts (h.seek host offset whence) := by
  cases h <;> unfold Handle.seek <;> infer_instance

instance (host : Host) (h : Handle) : Stays SameCounts (h.stat host) := by
  cases h <;> unfold Handle.stat <;> infer_instance

instance (host : Host) (len : Nat) (e : Endpoint) : Stays SameCounts (e.read host len) := by
  cases e <;> unfold Endpoint.read <;> infer_instance

instance (host : Host) (data : List U8) (e : Endpoint) : Stays SameCounts (e.write host data) := by
  cases e <;> unfold Endpoint.write <;> infer_instance

/-! ## System calls -/

/-- What a system call leaves alone that only moves bytes: the table, the counts, the
signal actions, and who the task is. -/
structure Moves (s s' : KState) : Prop where
  files : s'.files = s.files
  objs : s.objs.SameCounts s'.objs
  actions : s'.actions = s.actions
  tty : s'.kern.tty = s.kern.tty
  pid : s'.kern.pid = s.kern.pid
  thread : s'.kern.thread = s.kern.thread
  exited : s'.kern.exited = s.kern.exited

theorem Moves.untouched (hf : s'.files = s.files) (ho : s'.objs = s.objs)
    (ha : s'.actions = s.actions) (hk : s'.kern = s.kern) : Moves s s' :=
  ⟨hf, ho ▸ Std.Refl.refl _, ha, by rw [hk], by rw [hk], by rw [hk], by rw [hk]⟩

instance : Std.Refl Moves := ⟨fun _ => .untouched rfl rfl rfl rfl⟩

instance : IsTrans KState Moves :=
  ⟨fun _ _ _ h h' => ⟨h'.files.trans h.files, IsTrans.trans _ _ _ h.objs h'.objs,
    h'.actions.trans h.actions, h'.tty.trans h.tty, h'.pid.trans h.pid, h'.thread.trans h.thread,
    h'.exited.trans h.exited⟩⟩

/-- A relation that allows what reads, writes and seeks do: registers and memory change, signals
become pending, objects change behind their handles. -/
class AllowsTransfers (R : KState → KState → Prop) : Prop extends Std.Refl R, IsTrans KState R where
  machine : ∀ s cpu mem, R s { s with cpu := cpu, mem := mem }
  pending : ∀ s p, R s { s with kern := { s.kern with pendingSignals := p } }
  objs : ∀ s o calls, s.objs.SameCounts o → R s { s with objs := o, calls := calls }

open AllowsTransfers

class AllowsBlocking (R : KState → KState → Prop) : Prop extends AllowsTransfers R where
  pipe : ∀ s b, R s { s with kern := { s.kern with blockedPipe := b } }

instance : AllowsBlocking Moves where
  machine _ _ _ := .untouched rfl rfl rfl rfl
  pipe _ _ := ⟨rfl, Std.Refl.refl _, rfl, rfl, rfl, rfl, rfl⟩
  pending _ _ := ⟨rfl, Std.Refl.refl _, rfl, rfl, rfl, rfl, rfl⟩
  objs _ _ _ ho := ⟨rfl, ho, rfl, rfl, rfl, rfl, rfl⟩

section AllowsTransfers
variable {R : KState → KState → Prop} [AllowsTransfers R]

instance (v : U32) : Stays R (ret v) := ⟨fun s => machine s _ s.mem⟩

instance (addr : U32) (value : List U8) : Stays R (memWriteBytes addr value) where
  stays s := by
    cases hw : s.mem.writeBytes addr value with
    | ok mem =>
      rw [after_ok (memWriteBytes_of_ok hw)]
      exact machine s s.cpu mem
    | error e =>
      rw [after_ok (memWriteBytes_of_error hw)]
      exact Std.Refl.refl s

instance (signal : Nat) : Stays R (queueSignal signal) where
  stays s := by
    show R s { s with kern := s.kern.queueSignal signal }
    rw [Kernel.queueSignal]
    split
    · exact Std.Refl.refl s
    · exact pending s _

instance {α : Type} (x : ObjM α) [hx : Stays SameCounts x] : Stays R (onObjs x) where
  stays s := by
    have ho := hx.stays s.objs
    rw [after, onObjs]
    rw [after] at ho
    cases h : x s.objs with
    | ok a o =>
      rw [h] at ho
      exact objs s o s.calls ho
    | error e o =>
      rw [h] at ho
      exact objs s o s.calls ho

instance (log : Option Transfer → HandleCall) (x : ObjM Transfer) [hx : Stays SameCounts x] :
    Stays R (onHandle log x) where
  stays s := by
    have ho := hx.stays s.objs
    rw [after, onHandle]
    rw [after] at ho
    cases h : x s.objs with
    | ok a o =>
      rw [h] at ho
      exact objs s o _ ho
    | error e o =>
      rw [h] at ho
      exact objs s o _ ho

instance (total e : U32) : Stays R (retTotal total e) := by
  unfold retTotal
  infer_instance

instance (addr value : U32) : Stays R (memWrite32 addr value) := by
  unfold memWrite32
  infer_instance

instance (host : Host) (e : Endpoint) (len : Nat) : Stays R (readFrom host e len) := by
  unfold readFrom
  infer_instance

instance (host : Host) (e : Endpoint) (data : List U8) : Stays R (writeTo host e data) := by
  unfold writeTo
  infer_instance

instance (addr : U32) (r : Transfer) : Stays R (storeRead addr r) := by
  unfold storeRead
  split <;> infer_instance

instance (base total : U32) (len : Nat) (r : Transfer) (next : U32 → KernelM Unit)
    [∀ total, Stays R (next total)] : Stays R (storeReadv base total len r next) := by
  unfold storeReadv
  split <;> infer_instance

instance (host : Host) (fd : Int) (iov : U32) (n : Nat) :
    ∀ i total, Stays R (handleReadvLoop host fd iov n i total) := by
  induction n with
  | zero =>
    intro i total
    unfold handleReadvLoop
    infer_instance
  | succ n ih =>
    intro i total
    unfold handleReadvLoop
    refine bind_of fun s => ?_
    split
    · infer_instance
    · split <;> infer_instance

instance (host : Host) (fd : Int) (iov count : U32) : Stays R (handleReadv host fd iov count) := by
  unfold handleReadv
  infer_instance

instance (host : Host) (fd : Int) (data : List U8) : Stays R (writeBytes host fd data) := by
  unfold writeBytes
  refine bind_of fun s => ?_
  split <;> infer_instance

instance (r : Transfer) : Stays R (retWrite r) := by
  unfold retWrite
  split <;> infer_instance

instance (r : Transfer) : Stays R (retNonblocking r) := by
  unfold retNonblocking
  split <;> infer_instance

instance (total : U32) (len : Nat) (r : Transfer) (next : U32 → KernelM Unit)
    [∀ total, Stays R (next total)] : Stays R (nextWritev total len r next) := by
  dsimp only [nextWritev]
  infer_instance

instance (host : Host) (fd : Int) (iov : U32) (n : Nat) :
    ∀ i total, Stays R (handleWritevLoop host fd iov n i total) := by
  induction n with
  | zero =>
    intro i total
    unfold handleWritevLoop
    infer_instance
  | succ n ih =>
    intro i total
    unfold handleWritevLoop
    refine bind_of fun s => ?_
    split <;> infer_instance

instance (host : Host) (fd : Int) (iov count : U32) : Stays R (handleWritev host fd iov count) := by
  unfold handleWritev
  infer_instance

instance (host : Host) (fd offset whence : Int) : Stays R (lseek host fd offset whence) := by
  unfold lseek
  refine bind_of fun s => ?_
  split
  · infer_instance
  · refine bind_of fun r => ?_
    split <;> infer_instance

instance (host : Host) (fd : Int) (offset : U64) (resultAddr : U32) (whence : Int) :
    Stays R (llseek host fd offset resultAddr whence) := by
  unfold llseek
  refine bind_of fun s => ?_
  split
  · infer_instance
  · refine bind_of fun r => ?_
    split <;> infer_instance

instance (addr : U32) (info : FileInfo) : Stays R (writeStat addr info) := by
  unfold writeStat
  infer_instance

instance (host : Host) (fd : Int) (statAddr : U32) : Stays R (statFD host fd statAddr) := by
  unfold statFD
  refine bind_of fun s => ?_
  split
  · infer_instance
  · refine bind_of fun r => ?_
    split <;> infer_instance

end AllowsTransfers

section AllowsBlocking
variable {R : KState → KState → Prop} [AllowsBlocking R]

instance (b : PipeBlock) : Stays R (blockPipe b) where
  stays s := by
    rw [after, blockPipe]
    cases s.kern.blockedPipe with
    | none => exact AllowsBlocking.pipe s (some b)
    | some _ => exact machine s _ s.mem

instance (host : Host) (fd : Int) (addr count : U32) : Stays R (handleRead host fd addr count) := by
  unfold handleRead
  refine bind_of fun s => ?_
  split <;> infer_instance

instance (host : Host) (fd : Int) (addr count : U32) (data : List U8) :
    Stays R (handleWriteData host fd addr count data) := by
  unfold handleWriteData
  refine bind_of fun s => ?_
  split <;> infer_instance

instance (host : Host) (fd : Int) (addr count : U32) : Stays R (handleWrite host fd addr count) := by
  unfold handleWrite
  refine bind_of fun s => ?_
  split <;> infer_instance

/-- The calls on descriptors that move bytes or ask for a position or a status. -/
instance (host : Host) (c : IOCall) : Stays R (c.run host) := by
  cases c <;> unfold IOCall.run <;> infer_instance

end AllowsBlocking

theorem Moves.accounts (h : Moves s s') : Accounts s s' := .of_same (by rw [h.files]) h.objs

end IshGo.Kernel
