/-
# `IshGo.Kernel.Delivery` — what a read or a write does with its endpoint

The reads and the writes of `IshGo.Kernel.FileIO`, once they have found what to read
from or write to.  `Delivers h` says what a system call has to ask of a handle `h`: the
calls of `Read` and `Write` it makes are calls on `h`, they are the ones its segments
ask for, in order, and what is stored in guest memory is what `h` returned.  It knows
the handle and the memory, no table.
-/
import IshGo.Kernel.FileIO
import IshGo.Lib.Stays

namespace IshGo.Kernel

open I386 Lib

variable {s s' : KState} {mem : Memory} {r : Transfer} {addr base iov : U32}
variable {c : HandleCall} {len : Nat} {value : List U8} {α : Type}
variable {count total : U32} {data : List U8}

variable (host : Host) (e : Endpoint)

/-! ## What is to be delivered -/

def stored (mem : Memory) (addr : U32) : Option Transfer → Memory
  | none => mem
  | some r =>
    match readErrno r.err with
    | some _ => mem
    | none =>
      match mem.writeBytes addr r.bytes with
      | .ok mem' => mem'
      | .error _ => mem

def Filled (mem : Memory) (addr : U32) (len : Nat) (r : Transfer) : Prop :=
  r.err = none ∧ r.count = len ∧ ∃ mem', mem.writeBytes addr r.bytes = .ok mem'

/-- A vector of `n` segments read from `h`: as long as segments are filled, in order. -/
inductive ReadsAll (h : Handle) (iov : U32) :
    Nat → Nat → Memory → Memory → List HandleCall → Prop
  | done {i : Nat} {m : Memory} : ReadsAll h iov 0 i m m []
  | unreadable {n i : Nat} {m : Memory} : iovec m iov i = none → ReadsAll h iov (n + 1) i m m []
  | stop {n i : Nat} {m : Memory} {base len : U32} {r : Option Transfer} :
      iovec m iov i = some (base, len) → (∀ t, r = some t → ¬ Filled m base (capCount len) t) →
      ReadsAll h iov (n + 1) i m (stored m base r) [.read h (capCount len) r]
  | next {n i : Nat} {m m' : Memory} {base len : U32} {r : Transfer} {cs : List HandleCall} :
      iovec m iov i = some (base, len) → Filled m base (capCount len) r →
      ReadsAll h iov n (i + 1) (stored m base (some r)) m' cs →
      ReadsAll h iov (n + 1) i m m' (.read h (capCount len) (some r) :: cs)

def Accepted (data : List U8) (r : Transfer) : Prop := r.err = none ∧ r.count = data.length

/-- Segments written to `h`: as long as they are accepted, in order. -/
inductive WritesAll (h : Handle) : List (List U8) → List HandleCall → Prop
  | done : WritesAll h [] []
  | stop {data : List U8} {rest : List (List U8)} {r : Option Transfer} :
      (∀ t, r = some t → ¬ Accepted data t) → WritesAll h (data :: rest) [.write h data r]
  | next {data : List U8} {rest : List (List U8)} {r : Transfer} {cs : List HandleCall} :
      Accepted data r → WritesAll h rest cs →
      WritesAll h (data :: rest) (.write h data (some r) :: cs)

/-- The segments of a vector, up to the first that cannot be read. -/
def segments (mem : Memory) (iov : U32) : Nat → Nat → List (List U8)
  | 0, _ => []
  | n + 1, i =>
    match segment mem iov i with
    | none => []
    | some data => data :: segments mem iov n (i + 1)

/-- The bytes of a `write`, as its only segment. -/
def writeSegments (mem : Memory) (addr count : U32) : List (List U8) :=
  (mem.readBytes addr (BitVec.ofNat 32 (capCount count))).toOption.toList

/-- The system calls on descriptors that move bytes or ask for a position or a status. -/
inductive IOCall where
  | read (fd : Int) (addr count : U32)
  | readv (fd : Int) (iov count : U32)
  | write (fd : Int) (addr count : U32)
  | writev (fd : Int) (iov count : U32)
  | lseek (fd offset whence : Int)
  | fstat64 (fd : Int) (addr : U32)
  deriving DecidableEq, Repr

namespace IOCall

def fd : IOCall → Int
  | read fd _ _ | readv fd _ _ | write fd _ _ | writev fd _ _ | lseek fd _ _ | fstat64 fd _ => fd

def run (host : Host) : IOCall → KernelM Unit
  | read fd addr count => handleRead host fd addr count
  | readv fd iov count => handleReadv host fd iov count
  | write fd addr count => handleWrite host fd addr count
  | writev fd iov count => handleWritev host fd iov count
  | lseek fd offset whence => Kernel.lseek host fd offset whence
  | fstat64 fd addr => statFD host fd addr

/-- The calls made between `s` and `s'` are what the system call asks of `h`. -/
def Delivers (h : Handle) (s s' : KState) : IOCall → Prop
  | read _ addr count =>
    ∃ r, s'.calls = .read h (capCount count) r :: s.calls ∧ s'.mem = stored s.mem addr r
  | readv _ iov count =>
    ∃ cs, s'.calls = cs.reverse ++ s.calls ∧ ReadsAll h iov (capCount count) 0 s.mem s'.mem cs
  | write _ addr count =>
    ∃ cs, s'.calls = cs.reverse ++ s.calls ∧ WritesAll h (writeSegments s.mem addr count) cs
  | writev _ iov count =>
    ∃ cs, s'.calls = cs.reverse ++ s.calls ∧ WritesAll h (segments s.mem iov (capCount count) 0) cs
  | lseek _ _ _ | fstat64 _ _ => s'.calls = s.calls

end IOCall

variable {fd : Int}

/-! ## One call on a handle -/

/-- The state after a call on a handle: recorded, and nothing else that a dispatch
looks at has changed. -/
structure Called (c : HandleCall) (s s' : KState) : Prop where
  calls : s'.calls = c :: s.calls
  mem : s'.mem = s.mem
  kern : s'.kern = s.kern
  files : s'.files = s.files

theorem onHandle_called (log : Option Transfer → HandleCall) (x : ObjM Transfer) (s : KState) :
    (∃ r s', onHandle log x s = .ok r s' ∧ Called (log (some r)) s s') ∨
      ∃ e s', onHandle log x s = .error e s' ∧ Called (log none) s s' := by
  rw [onHandle]
  cases x s.objs with
  | ok r o => exact .inl ⟨r, _, rfl, rfl, rfl, rfl, rfl⟩
  | error e o => exact .inr ⟨e, _, rfl, rfl, rfl, rfl, rfl⟩

theorem readFrom_called (len : Nat) (s : KState) :
    (∃ r s', readFrom host e len s = .ok r s' ∧ Called (.read e.target len (some r)) s s') ∨
      ∃ err s', readFrom host e len s = .error err s' ∧ Called (.read e.target len none) s s' :=
  onHandle_called (.read e.target len) (e.read host len) s

theorem writeTo_called (data : List U8) (s : KState) :
    (∃ r s', writeTo host e data s = .ok r s' ∧ Called (.write e.target data (some r)) s s') ∨
      ∃ err s', writeTo host e data s = .error err s' ∧ Called (.write e.target data none) s s' :=
  onHandle_called (.write e.target data) (e.write host data) s

theorem readSource_congr (hk : s'.kern.tty = s.kern.tty) (hf : s'.files = s.files) (fd : Int)
    (aware : Bool) : s'.readSource fd aware = s.readSource fd aware := by
  simp only [KState.readSource, KState.readEntry, KState.entry, hk, hf]

theorem writeTarget_congr (hk : s'.kern.tty = s.kern.tty) (hf : s'.files = s.files) (fd : Int) :
    s'.writeTarget fd = s.writeTarget fd := by
  simp only [KState.writeTarget, KState.writeEntry, KState.entry, hk, hf]

/-! ## Reading -/

def Ends (s' : KState) (calls : List HandleCall) (mem : Memory) : Prop :=
  s'.calls = calls ∧ s'.mem = mem

theorem ret_ends (v : U32) (s : KState) : Ends (after (ret v) s) s.calls s.mem := ⟨rfl, rfl⟩

theorem retTotal_ends (total e : U32) (s : KState) : Ends (after (retTotal total e) s) s.calls s.mem := by
  rw [retTotal]
  split
  · exact ret_ends e s
  · exact ret_ends total s

theorem blockPipe_ends (b : PipeBlock) (s : KState) : Ends (after (blockPipe b) s) s.calls s.mem := by
  rw [after, blockPipe]
  cases s.kern.blockedPipe with
  | none | some => exact ⟨rfl, rfl⟩

theorem stored_of_errno {e : U32} (h : readErrno r.err = some e) : stored mem addr (some r) = mem := by
  simp only [stored, h]

theorem stored_of_ok {mem' : Memory} (h : readErrno r.err = none)
    (hw : mem.writeBytes addr r.bytes = .ok mem') : stored mem addr (some r) = mem' := by
  simp only [stored, h, hw]

theorem stored_of_error {e : SpaceError} (h : readErrno r.err = none)
    (hw : mem.writeBytes addr r.bytes = .error e) : stored mem addr (some r) = mem := by
  simp only [stored, h, hw]

theorem memWriteBytes_of_ok (hw : s.mem.writeBytes addr value = .ok mem) :
    memWriteBytes addr value s = .ok true { s with mem := mem } := by
  simp only [memWriteBytes, hw]

theorem memWriteBytes_of_error {e : SpaceError}
    (hw : s.mem.writeBytes addr value = .error e) : memWriteBytes addr value s = .ok false s := by
  simp only [memWriteBytes, hw]

theorem storeRead_ends (addr : U32) (r : Transfer) (s : KState) :
    Ends (after (storeRead addr r) s) s.calls (stored s.mem addr (some r)) := by
  rw [storeRead]
  cases he : readErrno r.err with
  | some e =>
    rw [stored_of_errno he]
    exact ret_ends e s
  | none =>
    cases hw : s.mem.writeBytes addr r.bytes with
    | ok mem =>
      rw [stored_of_ok he hw]
      show Ends (after (memWriteBytes addr r.bytes >>= _) s) _ _
      rw [after_bind_of_ok (memWriteBytes_of_ok hw)]
      exact ret_ends _ _
    | error e =>
      rw [stored_of_error he hw]
      show Ends (after (memWriteBytes addr r.bytes >>= _) s) _ _
      rw [after_bind_of_ok (memWriteBytes_of_error hw)]
      exact ret_ends _ _

theorem readErrno_of_blocks {e : Endpoint} (h : e.blocks r = true) : readErrno r.err = some efault := by
  cases e with
  | nonblocking id =>
    have : r.err = some .wouldBlock := by simpa [Endpoint.blocks] using h
    rw [this]
    rfl
  | terminal tty => cases h
  | handle f => cases h

theorem handleRead_absent (addr count : U32) (h : s.readSource fd s.kern.schedulerAware = none) :
    handleRead host fd addr count s = .ok () (s.ret ebadf) := by
  rw [handleRead, get_bind, h]
  rfl

theorem handleRead_delivers (addr count : U32) {e : Endpoint}
    (h : s.readSource fd s.kern.schedulerAware = some e) :
    (IOCall.read fd addr count).Delivers e.target s (after (handleRead host fd addr count) s) := by
  have hrun : handleRead host fd addr count s =
      (readFrom host e (capCount count) >>= fun r =>
        if e.blocks r then blockPipe ⟨fd, addr, count, false, []⟩ else storeRead addr r) s := by
    rw [handleRead, get_bind, h]
  rw [after, hrun, ← after]
  rcases readFrom_called host e (capCount count) s with ⟨r, s', hr, hc⟩ | ⟨err, s', hr, hc⟩
  · rw [after_bind_of_ok hr]
    refine ⟨some r, ?_⟩
    split
    case isTrue hb =>
      obtain ⟨hcalls, hmem⟩ := blockPipe_ends ⟨fd, addr, count, false, []⟩ s'
      exact ⟨hcalls.trans hc.calls, (hmem.trans hc.mem).trans (stored_of_errno (readErrno_of_blocks hb)).symm⟩
    case isFalse =>
      obtain ⟨hcalls, hmem⟩ := storeRead_ends addr r s'
      exact ⟨hcalls.trans hc.calls, by rw [hmem, hc.mem]⟩
  · rw [after_bind_of_error hr]
    exact ⟨none, hc.calls, hc.mem⟩

theorem storeReadv_stop (next : U32 → KernelM Unit) (h : ¬ Filled s.mem base len r) :
    Ends (after (storeReadv base total len r next) s) s.calls (stored s.mem base (some r)) := by
  rw [storeReadv]
  cases he : readErrno r.err with
  | some e =>
    rw [stored_of_errno he]
    exact retTotal_ends total e s
  | none =>
    cases hw : s.mem.writeBytes base r.bytes with
    | error e =>
      rw [stored_of_error he hw]
      show Ends (after (memWriteBytes base r.bytes >>= _) s) _ _
      rw [after_bind_of_ok (memWriteBytes_of_error hw)]
      exact retTotal_ends _ _ _
    | ok mem =>
      -- all is stored, so the buffer was not filled, or the end was reached
      have hshort : r.count ≠ len ∨ r.err = some .eof := by
        by_contra hc
        obtain ⟨hcount, heof⟩ := not_or.mp hc
        refine h ⟨?_, not_not.mp hcount, mem, hw⟩
        cases herr : r.err with
        | none => rfl
        | some err => cases err <;> simp_all [readErrno]
      rw [stored_of_ok he hw]
      show Ends (after (memWriteBytes base r.bytes >>= _) s) _ _
      rw [after_bind_of_ok (memWriteBytes_of_ok hw)]
      simp only [if_true, if_pos hshort]
      exact ret_ends _ _

theorem storeReadv_next (next : U32 → KernelM Unit)
    (h : Filled s.mem base len r) : storeReadv base total len r next s =
      next (total + BitVec.ofNat 32 r.count) { s with mem := stored s.mem base (some r) } := by
  obtain ⟨herr, hcount, mem, hw⟩ := h
  have he : readErrno r.err = none := by rw [herr]; rfl
  have hfull : ¬ (r.count ≠ len ∨ r.err = some .eof) := by simp [hcount, herr]
  rw [stored_of_ok he hw, storeReadv, he]
  show (memWriteBytes base r.bytes >>= _) s = _
  rw [bind_of_ok (memWriteBytes_of_ok hw)]
  simp only [if_true, if_neg hfull]

/-- The loop of `handleReadv`, with an endpoint. -/
theorem handleReadvLoop_succ {len : U32} {e : Endpoint} (h : s.readSource fd false = some e) (n i : Nat)
    (total : U32) (hv : iovec s.mem iov i = some (base, len)) : handleReadvLoop host fd iov (n + 1) i total s =
      (readFrom host e (capCount len) >>= fun r =>
        storeReadv base total (capCount len) r (handleReadvLoop host fd iov n (i + 1))) s := by
  rw [handleReadvLoop, get_bind, hv]
  simp only [h]

theorem handleReadvLoop_unreadable (fd : Int) (n i : Nat) (total : U32) (hv : iovec s.mem iov i = none) :
    handleReadvLoop host fd iov (n + 1) i total s = retTotal total efault s := by
  rw [handleReadvLoop, get_bind, hv]

/-- A whole run of the loop: by induction on the turns left.  The endpoint stays the
same because no turn touches the table. -/
theorem handleReadvLoop_reads {e : Endpoint} (n : Nat) :
    ∀ {i : Nat} {total : U32} {s : KState}, s.readSource fd false = some e →
      ∃ cs, (after (handleReadvLoop host fd iov n i total) s).calls = cs.reverse ++ s.calls ∧
        ReadsAll e.target iov n i s.mem (after (handleReadvLoop host fd iov n i total) s).mem cs := by
  induction n with
  | zero => exact fun {i total s} _ => ⟨[], rfl, .done⟩
  | succ n ih =>
    intro i total s h
    cases hv : iovec s.mem iov i with
    | none =>
      obtain ⟨hcalls, hmem⟩ := retTotal_ends total efault s
      rw [after, handleReadvLoop_unreadable host fd n i total hv, ← after, hcalls, hmem]
      exact ⟨[], rfl, .unreadable hv⟩
    | some v =>
      obtain ⟨base, len⟩ := v
      rw [after, handleReadvLoop_succ host h n i total hv, ← after]
      rcases readFrom_called host e (capCount len) s with ⟨r, s', hr, hc⟩ | ⟨err, s', hr, hc⟩
      · rw [after_bind_of_ok hr]
        by_cases hf : Filled s'.mem base (capCount len) r
        · obtain ⟨cs, hcalls, hreads⟩ :=
            @ih (i + 1) (total + BitVec.ofNat 32 r.count)
              { s' with mem := stored s'.mem base (some r) }
              ((readSource_congr (by rw [hc.kern]) hc.files fd false).trans h)
          rw [after, storeReadv_next _ hf, ← after]
          refine ⟨_ :: cs, ?_, .next hv (hc.mem ▸ hf) (hc.mem ▸ hreads)⟩
          rw [hcalls, hc.calls, List.reverse_cons, List.append_assoc]
          rfl
        · obtain ⟨hcalls, hmem⟩ := storeReadv_stop (handleReadvLoop host fd iov n (i + 1)) hf
          refine ⟨[.read e.target (capCount len) (some r)], hcalls.trans hc.calls, ?_⟩
          rw [hmem, hc.mem]
          refine .stop hv fun t ht => ?_
          cases ht
          exact hc.mem ▸ hf
      · rw [after_bind_of_error hr]
        refine ⟨[.read e.target (capCount len) none], hc.calls, ?_⟩
        rw [hc.mem]
        exact .stop (r := none) hv fun t ht => by cases ht

theorem handleReadv_delivers (iov count : U32) {e : Endpoint} (h : s.readSource fd false = some e) :
    (IOCall.readv fd iov count).Delivers e.target s (after (handleReadv host fd iov count) s) :=
  handleReadvLoop_reads host (capCount count) h

/-- Without an endpoint `handleReadv` notices it at the first segment. -/
theorem handleReadv_absent (h : s.readSource fd false = none) :
    handleReadv host fd iov count s =
      .ok () (s.ret (if capCount count = 0 then 0 else if iovec s.mem iov 0 = none then efault
        else ebadf)) := by
  rw [handleReadv]
  cases hn : capCount count with
  | zero => rfl
  | succ n =>
    cases hv : iovec s.mem iov 0 with
    | none => exact handleReadvLoop_unreadable host fd n 0 0 hv
    | some v =>
      rw [handleReadvLoop, get_bind, hv]
      simp only [h]
      rfl

/-- A vector without a readable first segment ends at once. -/
theorem handleReadv_idle (fd : Int) (h : ¬ (capCount count ≠ 0 ∧ iovec s.mem iov 0 ≠ none)) :
    handleReadv host fd iov count s = .ok () (s.ret (if capCount count = 0 then 0 else efault)) := by
  rw [handleReadv]
  cases hn : capCount count with
  | zero => rfl
  | succ n =>
    have hv : iovec s.mem iov 0 = none := by
      by_contra hv
      exact h ⟨by rw [hn]; exact Nat.succ_ne_zero n, hv⟩
    exact handleReadvLoop_unreadable host fd n 0 0 hv

theorem zero_or_efault_ne_ebadf (p : Prop) [Decidable p] : (if p then 0 else efault) ≠ ebadf := by
  split <;> decide

/-! ## Writing -/

/-- The state after `writeBytes`, which may also have queued a signal. -/
structure Wrote (c : HandleCall) (s s' : KState) : Prop where
  calls : s'.calls = c :: s.calls
  mem : s'.mem = s.mem
  tty : s'.kern.tty = s.kern.tty
  files : s'.files = s.files

theorem Called.wrote (h : Called c s s') : Wrote c s s' :=
  ⟨h.calls, h.mem, by rw [h.kern], h.files⟩

theorem queueSignal_tty (k : Kernel) (signal : Nat) : (k.queueSignal signal).tty = k.tty := by
  rw [Kernel.queueSignal]
  split <;> rfl

theorem Wrote.queueSignal (h : Wrote c s s') (signal : Nat) :
    Wrote c s { s' with kern := s'.kern.queueSignal signal } :=
  ⟨h.calls, h.mem, (queueSignal_tty _ _).trans h.tty, h.files⟩

theorem writeBytes_absent (data : List U8) (h : s.writeTarget fd = none) :
    writeBytes host fd data s = .ok ⟨0, some .badFileDescriptor, []⟩ s := by
  rw [writeBytes, get_bind, h]
  rfl

theorem writeBytes_wrote (data : List U8) {e : Endpoint} (h : s.writeTarget fd = some e) :
    (∃ r s', writeBytes host fd data s = .ok r s' ∧ Wrote (.write e.target data (some r)) s s') ∨
      ∃ err s', writeBytes host fd data s = .error err s' ∧
        Wrote (.write e.target data none) s s' := by
  have hrun : writeBytes host fd data s =
      (writeTo host e data >>= fun r => do
        if r.err = some .brokenPipe then queueSignal 13
        return r) s := by
    rw [writeBytes, get_bind, h]
  rw [hrun]
  rcases writeTo_called host e data s with ⟨r, s', hr, hc⟩ | ⟨err, s', hr, hc⟩
  · rw [bind_of_ok hr]
    refine .inl ⟨r, ?_⟩
    split
    · exact ⟨_, rfl, hc.wrote.queueSignal 13⟩
    · exact ⟨_, rfl, hc.wrote⟩
  · exact .inr ⟨err, s', bind_of_error hr, hc.wrote⟩

def Quiet {α : Type} (x : KernelM α) : Prop := ∀ s, (after x s).calls = s.calls

theorem ret_quiet (v : U32) : Quiet (ret v) := fun s => (ret_ends v s).1

theorem retWrite_quiet (r : Transfer) : Quiet (retWrite r) := by
  rw [retWrite]
  split
  all_goals exact ret_quiet _

theorem retNonblocking_quiet (r : Transfer) : Quiet (retNonblocking r) := by
  rw [retNonblocking]
  split
  · exact ret_quiet _
  · exact fun s => rfl
  · exact ret_quiet _

theorem blocked_quiet (b : PipeBlock) (r : Transfer) :
    Quiet (if e.blocks r then blockPipe b else retNonblocking r) := by
  split
  · exact fun s => (blockPipe_ends b s).1
  · exact retNonblocking_quiet r

/-- One segment: it is the only one, accepted or not. -/
theorem WritesAll.single (h : Handle) (data : List U8) (r : Option Transfer) :
    WritesAll h [data] [.write h data r] := by
  by_cases hr : ∃ t, r = some t ∧ Accepted data t
  · obtain ⟨t, rfl, ht⟩ := hr
    exact .next ht .done
  · exact .stop fun t ht hacc => hr ⟨t, ht, hacc⟩

/-- What `handleWrite` writes to. -/
def KState.writeSource (s : KState) (fd : Int) : Option Endpoint :=
  match s.nonblockingTarget fd with
  | some e => some e
  | none => s.writeTarget fd

theorem handleWrite_unreadable (fd : Int) (hd : writeSegments s.mem addr count = []) :
    handleWrite host fd addr count s = .ok () (s.ret efault) := by
  rw [writeSegments] at hd
  rw [handleWrite, get_bind]
  cases hr : s.mem.readBytes addr (BitVec.ofNat 32 (capCount count)) with
  | error e => rfl
  | ok data =>
    rw [hr] at hd
    cases hd

theorem handleWrite_readable (fd : Int) {rest : List (List U8)}
    (hd : writeSegments s.mem addr count = data :: rest) :
    handleWrite host fd addr count s = handleWriteData host fd addr count data s ∧ rest = [] := by
  rw [writeSegments] at hd
  rw [handleWrite, get_bind]
  cases hr : s.mem.readBytes addr (BitVec.ofNat 32 (capCount count)) with
  | error e =>
    rw [hr] at hd
    cases hd
  | ok d =>
    rw [hr] at hd
    cases hd
    exact ⟨rfl, rfl⟩

theorem handleWriteData_nonblocking (addr count : U32) (data : List U8) {e : Endpoint}
    (h : s.nonblockingTarget fd = some e) : handleWriteData host fd addr count data s =
      (writeTo host e data >>= fun r =>
        if e.blocks r then blockPipe ⟨fd, addr, count, true, data⟩ else retNonblocking r) s := by
  rw [handleWriteData, get_bind, h]

theorem handleWriteData_blocking (addr count : U32) (data : List U8) (h : s.nonblockingTarget fd = none) :
    handleWriteData host fd addr count data s = (writeBytes host fd data >>= retWrite) s := by
  rw [handleWriteData, get_bind, h]

theorem handleWrite_absent (addr count : U32) (h : s.writeSource fd = none) :
    handleWrite host fd addr count s = .ok () (s.ret efault) := by
  cases hd : writeSegments s.mem addr count with
  | nil => exact handleWrite_unreadable host fd hd
  | cons data rest =>
    rw [KState.writeSource] at h
    cases hn : s.nonblockingTarget fd with
    | some e =>
      rw [hn] at h
      cases h
    | none =>
      rw [hn] at h
      rw [(handleWrite_readable host fd hd).1, handleWriteData_blocking host addr count data hn]
      exact bind_of_ok (writeBytes_absent host data h)

theorem handleWriteData_calls (addr count : U32) (data : List U8) {e : Endpoint}
    (h : s.writeSource fd = some e) : ∃ r, (after (handleWriteData host fd addr count data) s).calls =
      .write e.target data r :: s.calls := by
  rw [KState.writeSource] at h
  cases hn : s.nonblockingTarget fd with
  | some e' =>
    rw [hn] at h
    cases h
    rw [after, handleWriteData_nonblocking host addr count data hn, ← after]
    rcases writeTo_called host e data s with ⟨r, s', hw, hc⟩ | ⟨err, s', hw, hc⟩
    · rw [after_bind_of_ok hw, blocked_quiet e _ r s']
      exact ⟨r, hc.calls⟩
    · rw [after_bind_of_error hw]
      exact ⟨none, hc.calls⟩
  | none =>
    rw [hn] at h
    rw [after, handleWriteData_blocking host addr count data hn, ← after]
    rcases writeBytes_wrote host data h with ⟨r, s', hw, hc⟩ | ⟨err, s', hw, hc⟩
    · rw [after_bind_of_ok hw, retWrite_quiet r s']
      exact ⟨r, hc.calls⟩
    · rw [after_bind_of_error hw]
      exact ⟨none, hc.calls⟩

theorem handleWrite_delivers (addr count : U32) {e : Endpoint} (h : s.writeSource fd = some e) :
    (IOCall.write fd addr count).Delivers e.target s (after (handleWrite host fd addr count) s) := by
  rw [IOCall.Delivers]
  cases hd : writeSegments s.mem addr count with
  | nil =>
    rw [after_ok (handleWrite_unreadable host fd hd)]
    exact ⟨[], rfl, .done⟩
  | cons data rest =>
    obtain ⟨hrun, rfl⟩ := handleWrite_readable host fd hd
    obtain ⟨r, hcalls⟩ := handleWriteData_calls host addr count data h
    rw [after, hrun, ← after]
    exact ⟨[.write e.target data r], hcalls, .single e.target data r⟩

/-- A turn of the loop of `handleWritev` that has a segment. -/
theorem handleWritevLoop_succ (fd : Int) (n i : Nat) (total : U32)
    (hd : segment s.mem iov i = some data) : handleWritevLoop host fd iov (n + 1) i total s =
      (writeBytes host fd data >>= fun r =>
        nextWritev total data.length r (handleWritevLoop host fd iov n (i + 1))) s := by
  rw [handleWritevLoop, get_bind, hd]

theorem handleWritevLoop_unreadable (fd : Int) (n i : Nat) (total : U32) (hd : segment s.mem iov i = none) :
    handleWritevLoop host fd iov (n + 1) i total s = retTotal total efault s := by
  rw [handleWritevLoop, get_bind, hd]

theorem nextWritev_accepted (next : U32 → KernelM Unit)
    (h : Accepted data r) : nextWritev total data.length r next = next (total + BitVec.ofNat 32 r.count) := by
  simp [nextWritev, h.1, h.2]

theorem nextWritev_quiet (next : U32 → KernelM Unit)
    (h : ¬ Accepted data r) : Quiet (nextWritev total data.length r next) := by
  simp only [nextWritev]
  split
  · split
    all_goals exact ret_quiet _
  split
  · exact ret_quiet _
  · rename_i herr hcount
    exact absurd ⟨not_not.mp herr, not_not.mp hcount⟩ h

/-- A whole run of the loop, by induction on the turns left. -/
theorem handleWritevLoop_writes {e : Endpoint} (n : Nat) :
    ∀ {i : Nat} {total : U32} {s : KState}, s.writeTarget fd = some e →
      ∃ cs, (after (handleWritevLoop host fd iov n i total) s).calls = cs.reverse ++ s.calls ∧
        WritesAll e.target (segments s.mem iov n i) cs := by
  induction n with
  | zero => exact fun {i total s} _ => ⟨[], rfl, .done⟩
  | succ n ih =>
    intro i total s h
    rw [segments]
    cases hd : segment s.mem iov i with
    | none =>
      rw [after, handleWritevLoop_unreadable host fd n i total hd, ← after]
      exact ⟨[], (retTotal_ends total efault s).1, .done⟩
    | some data =>
      rw [after, handleWritevLoop_succ host fd n i total hd, ← after]
      rcases writeBytes_wrote host data h with ⟨r, s', hw, hc⟩ | ⟨err, s', hw, hc⟩
      · rw [after_bind_of_ok hw]
        by_cases ha : Accepted data r
        · obtain ⟨cs, hcalls, hwrites⟩ :=
            @ih (i + 1) (total + BitVec.ofNat 32 r.count) s'
              ((writeTarget_congr hc.tty hc.files fd).trans h)
          rw [nextWritev_accepted _ ha]
          refine ⟨_ :: cs, ?_, .next ha (hc.mem ▸ hwrites)⟩
          rw [hcalls, hc.calls, List.reverse_cons, List.append_assoc]
          rfl
        · rw [nextWritev_quiet _ ha s']
          refine ⟨[.write e.target data (some r)], hc.calls, .stop fun t ht => ?_⟩
          cases ht
          exact ha
      · rw [after_bind_of_error hw]
        exact ⟨[.write e.target data none], hc.calls, .stop fun t ht => by cases ht⟩

theorem handleWritev_delivers (iov count : U32) {e : Endpoint} (h : s.writeTarget fd = some e) :
    (IOCall.writev fd iov count).Delivers e.target s (after (handleWritev host fd iov count) s) :=
  handleWritevLoop_writes host (capCount count) h

/-- A vector without a target, or without a readable first segment, ends at once, and never with `-EBADF`. -/
theorem handleWritev_refused
    (h : s.writeTarget fd = none ∨ segments s.mem iov (capCount count) 0 = []) :
    handleWritev host fd iov count s = .ok () (s.ret (if capCount count = 0 then 0 else efault)) := by
  rw [handleWritev]
  cases hn : capCount count with
  | zero => rfl
  | succ n =>
    cases hd : segment s.mem iov 0 with
    | none => exact handleWritevLoop_unreadable host fd n 0 0 hd
    | some data =>
      rcases h with h | h
      · rw [handleWritevLoop_succ host fd n 0 0 hd, bind_of_ok (writeBytes_absent host data h)]
        rfl
      · rw [hn, segments, hd] at h
        cases h

/-! ## Seek and stat -/

theorem onObjs_calls (x : ObjM α) (s : KState) :
    (∃ a s', onObjs x s = .ok a s' ∧ s'.calls = s.calls) ∨
      ∃ e s', onObjs x s = .error e s' ∧ s'.calls = s.calls := by
  rw [onObjs]
  cases x s.objs with
  | ok a o => exact .inl ⟨a, _, rfl, rfl⟩
  | error e o => exact .inr ⟨e, _, rfl, rfl⟩

theorem Quiet.onObjs_bind {β : Type} {x : ObjM α} {f : α → KernelM β} (hf : ∀ a, Quiet (f a)) :
    Quiet (onObjs x >>= f) := by
  intro s
  rcases onObjs_calls x s with ⟨a, s', hx, hc⟩ | ⟨e, s', hx, hc⟩
  · rw [after_bind_of_ok hx, hf a s', hc]
  · rw [after_bind_of_error hx, hc]

theorem lseek_absent (offset whence : Int) (h : s.handleForFD fd = none) :
    lseek host fd offset whence s = .ok () (s.ret ebadf) := by
  rw [lseek, get_bind, h]
  rfl

theorem lseek_quiet (fd offset whence : Int) : Quiet (lseek host fd offset whence) := by
  intro s
  rw [lseek, after_get_bind]
  cases s.handleForFD fd with
  | none => rfl
  | some f =>
    refine Quiet.onObjs_bind (fun r => ?_) s
    cases r with
    | error | ok => exact ret_quiet _

theorem writeStat_quiet (addr : U32) (info : FileInfo) : Quiet (writeStat addr info) := by
  intro s
  rw [writeStat]
  cases hw : s.mem.writeBytes addr (statBytes info) with
  | ok mem => rw [after_bind_of_ok (memWriteBytes_of_ok hw)]; rfl
  | error e => rw [after_bind_of_ok (memWriteBytes_of_error hw)]; rfl

theorem statFD_absent (statAddr : U32) (h : s.handleForFD fd = none) :
    statFD host fd statAddr s = .ok () (s.ret ebadf) := by
  rw [statFD, get_bind, h]
  rfl

theorem statFD_quiet (fd : Int) (statAddr : U32) : Quiet (statFD host fd statAddr) := by
  intro s
  rw [statFD, after_get_bind]
  cases s.handleForFD fd with
  | none => rfl
  | some f =>
    refine Quiet.onObjs_bind (fun r => ?_) s
    cases r with
    | error e => exact ret_quiet _
    | ok info => exact writeStat_quiet statAddr info

end IshGo.Kernel
