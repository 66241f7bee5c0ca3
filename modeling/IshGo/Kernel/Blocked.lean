/-
# `IshGo.Kernel.Blocked` — a call that has blocked on a pipe

`handleRead` and `handleWrite` leave a record with the number of the descriptor, and
`TryResumeBlocked` looks the number up again.  So the call is completed on the pipe that it
has blocked on exactly if the number still stands for an end of that pipe, and one that can do
what was asked (`completesOn_iff`).
-/
import IshGo.Kernel.CallFrame

namespace IshGo.Kernel

open I386 Lib PipeBlock Stays

variable (host : Host)
variable {id : Nat} {b : PipeBlock} {s s' : KState}
variable {fd : Int} {o : Objects} {r : Transfer}

namespace PipeBlock

def length (b : PipeBlock) : Nat := if b.write then b.data.length else capCount b.count

def answer (b : PipeBlock) (p : Pipe) : Transfer × Pipe :=
  if b.write then p.writeNonblocking b.data else p.readNonblocking (capCount b.count)

def call (b : PipeBlock) (h : Handle) (r : Option Transfer) : HandleCall :=
  if b.write then .write h b.data r else .read h (capCount b.count) r

def method (b : PipeBlock) (id : Nat) : ObjM Transfer :=
  if b.write then pipeWriteNonblocking id b.data else pipeReadNonblocking id (capCount b.count)

def tries (host : Host) (b : PipeBlock) (id : Nat) : KernelM Transfer :=
  if b.write then writeTo host (.nonblocking id) b.data
  else readFrom host (.nonblocking id) (capCount b.count)

def ends (b : PipeBlock) (r : Transfer) : KernelM Unit :=
  if b.write then retNonblocking r else resumeRead b.addr r

/-- Bytes have been moved, or there is the end of the file for a read, or no reader for a write. -/
def Final (b : PipeBlock) (r : Transfer) : Prop :=
  r.err = none ∨ r.err = some (if b.write then .brokenPipe else .eof)

/-- What the answer `r` makes of a state: the bytes are in memory, and the count is returned. -/
def Returns (b : PipeBlock) (r : Transfer) (s s' : KState) : Prop :=
  if b.write then
    s'.mem = s.mem ∧
      s'.cpu.regs EAX = if r.err = some .brokenPipe then epipe else BitVec.ofNat 32 r.count
  else
    match s.mem.writeBytes b.addr r.bytes with
    | .ok mem => s'.mem = mem ∧ s'.cpu.regs EAX = BitVec.ofNat 32 r.count
    | .error _ => s'.mem = s.mem ∧ s'.cpu.regs EAX = efault

end PipeBlock

/-- The number stands for an end of the pipe that the call can be made on. -/
def KState.EndOf (s : KState) (b : PipeBlock) (pipe : Nat) : Prop :=
  ∃ id, s.entry b.fd = some (.pipe id) ∧ (s.objs.ends id).pipe = pipe ∧
    (s.objs.ends id).write = b.write

/-- From `s` to `s'` the call has been completed on the pipe: there was one call, on a handle of
the pipe, and it got the answer of the pipe; no other pipe or file has changed; and the answer
is what the guest sees. -/
structure CompletesOn (b : PipeBlock) (pipe : Nat) (s s' : KState) : Prop where
  called : ∃ id, (s.objs.ends id).pipe = pipe ∧
    s'.calls = b.call (.pipe id) (some (b.answer (s.objs.pipes pipe)).1) :: s.calls
  objs : s'.objs = s.objs.setPipe pipe (b.answer (s.objs.pipes pipe)).2
  final : b.Final (b.answer (s.objs.pipes pipe)).1
  returns : b.Returns (b.answer (s.objs.pipes pipe)).1 s s'

/-! ## One attempt -/

section Attempt
variable {pipe : Nat}

theorem answer_err (b : PipeBlock) (p : Pipe) :
    b.Final (b.answer p).1 ∨ (b.answer p).1.err = some .wouldBlock := by
  unfold PipeBlock.Final answer
  cases b.write with
  | true =>
    simp only [if_true, Pipe.writeNonblocking, Pipe.writeSection]
    repeat' split
    all_goals simp
  | false =>
    simp only [Bool.false_eq_true, if_false, Pipe.readNonblocking, Pipe.readSection]
    repeat' split
    all_goals simp

theorem method_eq (b : PipeBlock) (id : Nat) (o : Objects) :
    b.method id o =
      if (o.ends id).write ≠ b.write then .ok ⟨0, some .invalid, []⟩ o
      else if b.length = 0 then .ok ⟨0, none, []⟩ o
      else .ok (b.answer (o.pipes (o.ends id).pipe)).1
        (o.setPipe (o.ends id).pipe (b.answer (o.pipes (o.ends id).pipe)).2) := by
  unfold method length answer
  cases b.write with
  | true =>
    simp only [if_true, pipeWriteNonblocking_eq, ne_eq, Bool.not_eq_true]
  | false =>
    simp only [Bool.false_eq_true, if_false, pipeReadNonblocking_eq, ne_eq, Bool.not_eq_false]

theorem method_ok (b : PipeBlock) (id : Nat) (o : Objects) : ∃ r o', b.method id o = .ok r o' := by
  rw [method_eq]
  repeat' split
  all_goals exact ⟨_, _, rfl⟩

theorem tries_eq (h : b.method id s.objs = .ok r o) : b.tries host id s =
      .ok r { s with objs := o, calls := b.call (.pipe id) (some r) :: s.calls } := by
  unfold method at h
  unfold tries call
  split at h
  · rename_i hw
    rw [if_pos hw, if_pos hw, writeTo, onHandle, Endpoint.write, h]
    rfl
  · rename_i hw
    rw [if_neg hw, if_neg hw, readFrom, onHandle, Endpoint.read, h]
    rfl

theorem tryResume_pipe (hentry : s.entry b.fd = some (.pipe id)) : tryResumeBlockedPipe host b s =
      (b.tries host id >>= fun r =>
        if r.err = some .wouldBlock then pure false
        else unblockPipe >>= fun _ => b.ends r >>= fun _ => pure true) s := by
  unfold tryResumeBlockedPipe
  rw [get_bind, hentry]
  unfold tries ends
  cases b.write with
  | true | false => simp [Endpoint.blocks]

theorem tryResume_absent (h : ¬ ∃ id, s.entry b.fd = some (.pipe id)) : tryResumeBlockedPipe host b s =
      .ok true ({ s with kern := { s.kern with blockedPipe := none } }.ret ebadf) := by
  unfold tryResumeBlockedPipe
  rw [get_bind]
  cases hentry : s.entry b.fd with
  | none => rfl
  | some f => cases f <;> first | rfl | exact absurd ⟨_, hentry⟩ h

theorem ends_spec (b : PipeBlock) (r : Transfer) (s : KState) :
    ∃ s', b.ends r s = .ok () s' ∧ s'.calls = s.calls ∧ s'.objs = s.objs ∧
      (b.Final r → b.Returns r s s') := by
  unfold ends PipeBlock.Final PipeBlock.Returns
  cases b.write with
  | true =>
    obtain ⟨count, err, bytes⟩ := r
    cases err with
    | none => exact ⟨_, rfl, rfl, rfl, fun _ => ⟨rfl, rfl⟩⟩
    | some e =>
      by_cases he : e = .brokenPipe
      · subst he
        exact ⟨_, rfl, rfl, rfl, fun _ => ⟨rfl, rfl⟩⟩
      have hrun : retNonblocking ⟨count, some e, bytes⟩ s = .ok () (s.ret efault) := by
        cases e <;> first | rfl | exact absurd rfl he
      refine ⟨_, hrun, rfl, rfl, fun hfinal => ?_⟩
      rcases hfinal with h | h
      · cases h
      · exact absurd (Option.some.inj h) he
  | false =>
    simp only [Bool.false_eq_true, if_false]
    unfold resumeRead
    by_cases hbad : r.err ≠ none ∧ r.err ≠ some .eof
    · rw [if_pos hbad]
      exact ⟨_, rfl, rfl, rfl, fun hfinal => absurd hfinal (not_or.mpr hbad)⟩
    rw [if_neg hbad]
    cases hw : s.mem.writeBytes b.addr r.bytes with
    | ok mem =>
      rw [bind_of_ok (memWriteBytes_of_ok hw)]
      exact ⟨_, rfl, rfl, rfl, fun _ => ⟨rfl, rfl⟩⟩
    | error e =>
      rw [bind_of_ok (memWriteBytes_of_error hw)]
      exact ⟨_, rfl, rfl, rfl, fun _ => ⟨rfl, rfl⟩⟩

/-- An attempt that lets the task go on: the handle was called and the call did not block, or
there was no pipe. -/
theorem tryResume_true {host : Host} (h : tryResumeBlockedPipe host b s = .ok true s') :
    (∃ id r o, s.entry b.fd = some (.pipe id) ∧ b.method id s.objs = .ok r o ∧
      s'.calls = b.call (.pipe id) (some r) :: s.calls ∧ s'.objs = o ∧
      r.err ≠ some .wouldBlock ∧ (b.Final r → b.Returns r s s')) ∨
    ((¬ ∃ id, s.entry b.fd = some (.pipe id)) ∧ s'.calls = s.calls) := by
  by_cases hpipe : ∃ id, s.entry b.fd = some (.pipe id)
  · obtain ⟨id, hentry⟩ := hpipe
    obtain ⟨r, o, hmethod⟩ := method_ok b id s.objs
    rw [tryResume_pipe host hentry, bind_of_ok (tries_eq host hmethod)] at h
    split at h
    · cases h
    rename_i hblock
    obtain ⟨t, ht, hcalls, hobjs, hreturns⟩ := ends_spec b r
      { s with
        objs := o, calls := b.call (.pipe id) (some r) :: s.calls
        kern := { s.kern with blockedPipe := none } }
    have hrun : (unblockPipe >>= fun _ => b.ends r >>= fun _ => pure true : KernelM Bool)
        { s with objs := o, calls := b.call (.pipe id) (some r) :: s.calls } = .ok true t := by
      exact bind_of_ok ht
    rw [hrun] at h
    cases h
    exact Or.inl ⟨id, r, o, hentry, hmethod, hcalls, hobjs, hblock, hreturns⟩
  · rw [tryResume_absent host hpipe] at h
    cases h
    exact Or.inr ⟨hpipe, rfl⟩

theorem call_inj {h h' : Handle} {r' : Transfer}
    (heq : b.call h (some r) = b.call h' (some r')) : h = h' ∧ r = r' := by
  unfold call at heq
  split at heq
  · cases heq
    exact ⟨rfl, rfl⟩
  · cases heq
    exact ⟨rfl, rfl⟩

/-- A completed call was completed on the pipe exactly if the number still stood for an end of
the pipe on which the call can be made. -/
theorem completesOn_iff {host : Host} (hask : b.length ≠ 0)
    (h : tryResumeBlockedPipe host b s = .ok true s') (pipe : Nat) :
    CompletesOn b pipe s s' ↔ s.EndOf b pipe := by
  rcases tryResume_true h with ⟨id, r, o, hentry, hmethod, hcalls, hobjs, hblock, hreturns⟩ |
    ⟨hnone, hquiet⟩
  · rw [method_eq] at hmethod
    constructor
    · rintro ⟨⟨id', hpipe, hcalls'⟩, _, hfinal, _⟩
      obtain ⟨hid, hr⟩ := call_inj (List.cons.inj (hcalls.symm.trans hcalls')).1
      cases hid
      refine ⟨id, hentry, hpipe, ?_⟩
      -- an end of the other kind would have said so
      by_contra hwrite
      rw [if_pos hwrite] at hmethod
      cases hmethod
      rw [← hr] at hfinal
      unfold PipeBlock.Final at hfinal
      split at hfinal <;> simp at hfinal
    · rintro ⟨id', hentry', hpipe, hwrite⟩
      cases hentry.symm.trans hentry'
      rw [if_neg (not_not.mpr hwrite), if_neg hask, hpipe] at hmethod
      cases hmethod
      have hfinal := (answer_err b (s.objs.pipes pipe)).resolve_right hblock
      exact ⟨⟨id, hpipe, hcalls⟩, hobjs, hfinal, hreturns hfinal⟩
  · constructor
    · rintro ⟨⟨id, _, hcalls⟩, _, _, _⟩
      rw [hquiet] at hcalls
      exact absurd hcalls.symm (List.cons_ne_self _ _)
    · rintro ⟨id, hentry, _, _⟩
      exact absurd ⟨id, hentry⟩ hnone

end Attempt

/-! ## How a task comes to be blocked -/

def RecordAside (s s' : KState) : Prop := s'.kern.blockedPipe = s.kern.blockedPipe

instance : AllowsCalls RecordAside where
  refl _ := rfl
  trans _ _ _ h h' := Eq.trans h' h
  machine _ _ _ := rfl
  pending _ _ := rfl
  objs _ _ _ _ := rfl
  mask _ _ := rfl
  tid _ _ := rfl
  exits _ _ _ := rfl
  table h := congrArg Kernel.blockedPipe h.kern

def Services.SparesPipes (svc : Services) : Prop := ∀ n, Stays RecordAside (svc.run n)

/-- The task has blocked, on the pipe that the number stands for. -/
structure Blocks (b : PipeBlock) (s s' : KState) : Prop where
  before : s.kern.blockedPipe = none
  after : s'.kern.blockedPipe = some b
  asks : b.length ≠ 0
  pipe : ∃ pipe, s.EndOf b pipe

theorem KState.EndOf.moves {pipe : Nat} (h : s.EndOf b pipe) (hm : Moves s s') : s'.EndOf b pipe := by
  obtain ⟨id, hentry, hpipe, hwrite⟩ := h
  refine ⟨id, ?_, ?_, ?_⟩
  · rw [KState.entry, hm.files]
    exact hentry
  · rw [hm.objs.ends]
    exact hpipe
  · rw [hm.objs.ends]
    exact hwrite

/-- Only the right end blocks, and only if something is asked for. -/
theorem method_wouldBlock {o' : Objects}
    (h : b.method id o = .ok r o') (he : r.err = some .wouldBlock) :
    (o.ends id).write = b.write ∧ b.length ≠ 0 := by
  rw [method_eq] at h
  split at h
  · cases h
    cases he
  rename_i hwrite
  split at h
  · cases h
    cases he
  · exact ⟨not_not.mp hwrite, ‹_›⟩

theorem tries_record (hentry : s.entry b.fd = some (.pipe id)) (k : Transfer → KernelM Unit)
    [∀ r, Stays RecordAside (k r)] : RecordAside s (after (b.tries host id >>= fun r =>
        if (Endpoint.nonblocking id).blocks r then blockPipe b else k r) s) ∨
      Blocks b s (after (b.tries host id >>= fun r =>
        if (Endpoint.nonblocking id).blocks r then blockPipe b else k r) s) := by
  obtain ⟨r, o, hmethod⟩ := method_ok b id s.objs
  rw [after_bind_of_ok (tries_eq host hmethod)]
  split
  · rename_i hblocks
    obtain ⟨hwrite, hask⟩ := method_wouldBlock hmethod (of_decide_eq_true hblocks)
    cases hrecord : s.kern.blockedPipe with
    | some b' =>
      refine Or.inl ?_
      rw [after, blockPipe]
      simp only [hrecord]
      rfl
    | none =>
      refine Or.inr ⟨hrecord, ?_, hask, _, id, hentry, rfl, hwrite⟩
      rw [after, blockPipe]
      simp only [hrecord]
  · exact Or.inl (stays (R := RecordAside) (x := k r)
      { s with objs := o, calls := b.call (.pipe id) (some r) :: s.calls })

theorem entry_of_readSource {aware : Bool}
    (h : s.readSource fd aware = some (.nonblocking id)) : s.entry fd = some (.pipe id) := by
  unfold KState.readSource at h
  cases hentry : s.entry fd with
  | none =>
    simp only [hentry] at h
    split at h
    · cases htty : s.kern.tty with
      | none | some => simp [htty] at h
    · cases h
  | some f =>
    simp only [hentry, Option.some.injEq] at h
    cases f with
    | pipe id' =>
      simp only [KState.readEntry] at h
      split at h
      · cases h
        rfl
      · cases h
    | tty t =>
      simp only [KState.readEntry] at h
      split at h <;> cases h
    | file | virtual | null | zero => cases h

theorem entry_of_nonblockingTarget {e : Endpoint}
    (h : s.nonblockingTarget fd = some e) : ∃ id, s.entry fd = some (.pipe id) ∧ e = .nonblocking id := by
  unfold KState.nonblockingTarget at h
  split at h
  · rename_i id hentry
    split at h
    · cases h
      exact ⟨id, hentry, rfl⟩
    · cases h
  · cases h

theorem handleRead_record (fd : Int) (addr count : U32) (s : KState) :
    RecordAside s (after (handleRead host fd addr count) s) ∨
      ∃ b, Blocks b s (after (handleRead host fd addr count) s) := by
  rw [handleRead, after_get_bind]
  cases hsource : s.readSource fd s.kern.schedulerAware with
  | none => exact Or.inl rfl
  | some e =>
    cases e with
    | terminal tty =>
      exact Or.inl (stays (R := RecordAside)
        (x := readFrom host (.terminal tty) (capCount count) >>= storeRead addr) s)
    | handle h =>
      exact Or.inl (stays (R := RecordAside)
        (x := readFrom host (.handle h) (capCount count) >>= storeRead addr) s)
    | nonblocking id =>
      have hentry := entry_of_readSource hsource
      exact (tries_record (b := ⟨fd, addr, count, false, []⟩) host hentry (storeRead addr)).imp_right
        fun h => ⟨_, h⟩

theorem handleWrite_record (fd : Int) (addr count : U32) (s : KState) :
    RecordAside s (after (handleWrite host fd addr count) s) ∨
      ∃ b, Blocks b s (after (handleWrite host fd addr count) s) := by
  rw [handleWrite, after_get_bind]
  split
  · exact Or.inl rfl
  rename_i data _
  rw [handleWriteData, after_get_bind]
  cases htarget : s.nonblockingTarget fd with
  | none =>
    exact Or.inl (stays (R := RecordAside) (x := writeBytes host fd data >>= retWrite) s)
  | some e =>
    obtain ⟨id, hentry, rfl⟩ := entry_of_nonblockingTarget htarget
    exact (tries_record (b := ⟨fd, addr, count, true, data⟩) host hentry retNonblocking).imp_right
      fun h => ⟨_, h⟩

instance (b : PipeBlock) (r : Transfer) : Stays RecordAside (b.ends r) := by
  unfold ends
  infer_instance

theorem tryResume_record (b : PipeBlock) (s : KState) : RecordAside s (after (tryResumeBlockedPipe host b) s) ∨
      (after (tryResumeBlockedPipe host b) s).kern.blockedPipe = none := by
  by_cases hpipe : ∃ id, s.entry b.fd = some (.pipe id)
  · obtain ⟨id, hentry⟩ := hpipe
    obtain ⟨r, o, hmethod⟩ := method_ok b id s.objs
    rw [after, tryResume_pipe host hentry, ← after, after_bind_of_ok (tries_eq host hmethod)]
    split
    · exact Or.inl rfl
    exact Or.inr (stays (R := RecordAside) (x := b.ends r >>= fun _ => pure true)
      { s with
        objs := o, calls := b.call (.pipe id) (some r) :: s.calls
        kern := { s.kern with blockedPipe := none } })
  · rw [after_ok (tryResume_absent host hpipe)]
    exact Or.inr rfl

theorem recordAside_rtSigaction (s : KState) (signal actionAddr oldActionAddr size : U32) :
    RecordAside s (s.rtSigaction signal actionAddr oldActionAddr size) := by
  simp only [KState.rtSigaction]
  repeat' split
  all_goals rfl

theorem IOCall.record (c : IOCall) (s : KState) :
    RecordAside s (after (c.run host) s) ∨ ∃ b, Blocks b s (after (c.run host) s) := by
  cases c with
  | read fd addr count => exact handleRead_record host fd addr count s
  | write fd addr count => exact handleWrite_record host fd addr count s
  | readv fd iov count =>
    exact Or.inl (stays (R := RecordAside) (x := handleReadv host fd iov count) s)
  | writev fd iov count =>
    exact Or.inl (stays (R := RecordAside) (x := handleWritev host fd iov count) s)
  | lseek fd offset whence =>
    exact Or.inl (stays (R := RecordAside) (x := Kernel.lseek host fd offset whence) s)
  | fstat64 fd addr => exact Or.inl (stays (R := RecordAside) (x := statFD host fd addr) s)

theorem Request.record {svc : Services} (hsvc : svc.SparesPipes) (r : Request) (s : KState) :
    RecordAside s (after (r.run host svc) s) ∨
      ∃ b, Blocks b s (after (r.run host svc) s) ∧ Moves s (after (r.run host svc) s) := by
  cases r with
  | io c =>
    refine (c.record host s).imp_right ?_
    rintro ⟨b, hb⟩
    exact ⟨b, hb, stays (R := Moves) (x := c.run host) s⟩
  | futex uaddr op value timeoutAddr =>
    exact Or.inl (futexFrame_futexCall s host uaddr op value timeoutAddr).record
  | rtSigaction signal actionAddr oldActionAddr size =>
    exact Or.inl (recordAside_rtSigaction s signal actionAddr oldActionAddr size)
  | _ => exact Or.inl (Request.allowed_call host hsvc rfl s)

end IshGo.Kernel
