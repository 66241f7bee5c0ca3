/-
# `IshGo.Kernel.Modes` — a pipe with `O_NONBLOCK`, with and without a scheduler

Under a scheduler `handleRead` and `handleWrite` use `ReadNonblocking` and `WriteNonblocking`, which
do not look at `nonblock`; without one they use `Read` and `Write`, which do.  On a pipe end with
`O_NONBLOCK` the two ways agree, except where the call would have to wait, where there is room for a
part only, and on descriptors 1 and 2 beside a terminal (`modes_agree_iff`).
-/
import IshGo.I386.Access
import IshGo.Kernel.Unnoticed
import IshGo.Kernel.WriteReport

namespace IshGo.Kernel

open I386 Lib Pipe List Endpoint

variable {data src : List U8} {e : Endpoint} {id : Nat} {o o' : Objects} {r : Transfer} {s : KState}
variable {host : Host} {len : Nat} {q : Transfer}

def KState.inMode (aware : Bool) (s : KState) : KState :=
  { s with kern := { s.kern with schedulerAware := aware } }

open KState

/-- In both modes the call returns, without blocking, the same value, and leaves the same pipe. -/
def SameInModes (host : Host) (s : KState) (id : Nat) (c : IOCall) : Prop :=
  ∃ t t', c.run host (s.inMode true) = .ok () t ∧ c.run host (s.inMode false) = .ok () t' ∧
    t.kern.blockedPipe = none ∧ t.cpu.regs EAX = t'.cpu.regs EAX ∧
      t.objs.pipeOf id = t'.objs.pipeOf id

def KState.readWaits (s : KState) (id : Nat) : Prop :=
  (s.objs.ends id).write = false ∧ (s.objs.pipeOf id).data = [] ∧ (s.objs.pipeOf id).writers ≠ 0

def KState.writeWaits (s : KState) (id : Nat) : Prop :=
  (s.objs.ends id).write = true ∧ (s.objs.pipeOf id).readers ≠ 0 ∧
    pipeCapacity ≤ (s.objs.pipeOf id).data.length

/-- With a scheduler the call blocks, and without one it returns `-EAGAIN`. -/
def BlocksOrAgain (host : Host) (s : KState) (c : IOCall) : Prop :=
  (∃ t, c.run host (s.inMode true) = .ok () t ∧ t.kern.blockedPipe ≠ none) ∧
    ∃ t, c.run host (s.inMode false) = .ok () t ∧ t.cpu.regs EAX = eagain

def KState.takesAll (s : KState) (id : Nat) (data : List U8) : Prop :=
  (s.objs.ends id).write = false ∨ data = [] ∨ (s.objs.pipeOf id).readers = 0 ∨
    (s.objs.pipeOf id).data.length + data.length ≤ pipeCapacity

def KState.terminalAgrees (s : KState) (id tty : Nat) (data : List U8) : Prop :=
  if (s.objs.ends id).write = false then (s.objs.terminals tty).closed = true
  else data = [] ∧ (s.objs.terminals tty).closed = false

def IOCall.agrees (s : KState) (id : Nat) : IOCall → Prop
  | read _ _ count => count = 0 ∨ ¬ s.readWaits id
  | write fd addr count =>
    ∀ data ∈ writeSegments s.mem addr count,
      (∀ tty, s.writeTarget fd = some (.terminal tty) → s.terminalAgrees id tty data) ∧
      (s.writeTarget fd = some (.handle (.pipe id)) → s.takesAll id data)
  | readv _ _ _ | writev _ _ _ | lseek _ _ _ | fstat64 _ _ => True

open IOCall

/-! ## The methods of an end with `O_NONBLOCK` -/

/-- The same, with `EAGAIN`. -/
def Transfer.again (r : Transfer) : Transfer := { r with err := some .again }

/-- `Write` has not done all it was asked for. -/
def Transfer.Unfinished (r : Transfer) (len : Nat) : Prop :=
  r.err = some .wouldBlock ∨ (r.err = none ∧ r.count < len)

instance (r : Transfer) (len : Nat) :
    Decidable (r.Unfinished len) := inferInstanceAs (Decidable (_ ∨ _))

namespace Pipe

variable {p : Pipe}

theorem writeNonblocking_cases {p' : Pipe} (h : p.writeNonblocking src = (r, p')) :
    (p.readers = 0 ∧ r = ⟨0, some .brokenPipe, []⟩ ∧ p' = p) ∨
    (p.readers ≠ 0 ∧ pipeCapacity ≤ p.data.length ∧ r = ⟨0, some .wouldBlock, []⟩ ∧ p' = p) ∨
    (p.readers ≠ 0 ∧ p.data.length < pipeCapacity ∧ p.data.length + src.length ≤ pipeCapacity ∧
      r = ⟨src.length, none, src⟩ ∧ p' = { p with data := p.data ++ src }) ∨
    (p.readers ≠ 0 ∧ ∃ room, 0 < room ∧ p.data.length + room = pipeCapacity ∧ room < src.length ∧
      r = ⟨room, none, src.take room⟩ ∧ p' = { p with data := p.data ++ src.take room }) := by
  unfold writeNonblocking writeSection at h
  by_cases hreaders : p.readers = 0
  · rw [if_pos hreaders] at h
    cases h
    exact .inl ⟨hreaders, rfl, rfl⟩
  rw [if_neg hreaders] at h
  dsimp only at h
  by_cases hfull : pipeCapacity - p.data.length = 0
  · rw [if_pos hfull] at h
    cases h
    exact .inr (.inl ⟨hreaders, by omega, rfl, rfl⟩)
  rw [if_neg hfull] at h
  by_cases hlong : src.length > pipeCapacity - p.data.length
  · rw [if_pos hlong] at h
    cases h
    exact .inr (.inr (.inr ⟨hreaders, _, Nat.pos_of_ne_zero hfull, by omega, hlong, rfl, rfl⟩))
  · rw [if_neg hlong, take_length] at h
    cases h
    exact .inr (.inr (.inl ⟨hreaders, by omega, by omega, rfl, rfl⟩))

end Pipe

section Methods
variable {id : Nat} {o o' : Objects} {r : Transfer} (hnonblock : (o.ends id).nonblock = true)
include hnonblock

/-- `Read` says `EAGAIN` where `ReadNonblocking` says that it would block. -/
theorem pipeRead_nonblock (h : pipeReadNonblocking id len o = .ok r o') :
    pipeRead id len o = .ok (if r.err = some .wouldBlock then r.again else r) o' := by
  rw [pipeReadNonblocking_eq] at h
  rw [pipeRead, get_bind]
  split at h
  · rename_i hwrite
    cases h
    rw [if_pos hwrite, if_neg (by decide)]
    rfl
  rename_i hwrite
  rw [if_neg hwrite]
  split at h
  · rename_i hlen
    cases h
    rw [if_pos hlen, if_neg (by decide)]
    rfl
  rename_i hlen
  rw [if_neg hlen, get_bind, hnonblock]
  cases h
  unfold readTurn readNonblocking
  cases hs : (o.pipes (o.ends id).pipe).readSection len with
  | none => rfl
  | some tp =>
    have herr : tp.1.err ≠ some .wouldBlock :=
      fun h => absurd ((readSection_ends hs).2 _ h).1 (by decide)
    dsimp only [Option.getD_some]
    rw [if_neg herr]
    rfl

/-- `Write` says `EAGAIN` where `WriteNonblocking` would block, and where it has written a part. -/
theorem pipeWrite_nonblock (h : pipeWriteNonblocking id src o = .ok r o') :
    pipeWrite id src o = .ok (if r.Unfinished src.length then r.again else r) o' := by
  rw [pipeWriteNonblocking_eq] at h
  split at h
  · rename_i hwrite
    cases h
    rw [pipeWrite, get_bind, if_pos hwrite, if_neg (by simp [Transfer.Unfinished])]
    rfl
  rename_i hwrite
  split at h
  · rename_i hlen
    cases h
    rw [pipeWrite, get_bind, if_neg hwrite, if_pos hlen,
      if_neg (by simp [Transfer.Unfinished, hlen])]
    rfl
  rename_i hlen
  have hloop : pipeWrite id src o = pipeWriteLoop (o.ends id) src (src.length + 1) 0 o := by
    rw [pipeWrite, get_bind, if_neg hwrite, if_neg hlen]
  cases h
  rcases hnb : (o.pipes (o.ends id).pipe).writeNonblocking src with ⟨q, p'⟩
  rcases writeNonblocking_cases hnb with
    ⟨hreaders, rfl, rfl⟩ | ⟨hreaders, hfull, rfl, rfl⟩ | ⟨hreaders, hroom, hfits, rfl, rfl⟩ |
      ⟨hreaders, room, hpos, hroom, hlong, rfl, rfl⟩
  · rw [hloop, pipeWriteLoop_succ, writeTurn_broken _ hreaders, if_neg (by simp [Transfer.Unfinished])]
    rfl
  · rw [hloop, pipeWriteLoop_succ, hnonblock, writeTurn_full true hreaders hfull, if_pos rfl, if_pos (.inl rfl)]
    rfl
  · rw [hloop, pipeWriteLoop_succ, writeTurn_whole _ hreaders hroom hfits,
      if_neg (by simp [Transfer.Unfinished])]
    dsimp only
    rw [take_length]
  · rw [pipeWrite_short (Bool.eq_true_of_not_eq_false hwrite) hnonblock hreaders hroom hpos hlong,
      if_pos (.inr ⟨rfl, hlong⟩)]
    rfl

end Methods

/-! ## What does not look at the mode -/

/-- Only the pipes of a read or a write depend on it. -/
instance (aware : Bool) : Unnoticed fun k => { k with schedulerAware := aware } where
  tty _ := rfl
  queueSignal k signal := by
    unfold Kernel.queueSignal
    split <;> rfl

instance (aware : Bool) {α : Type} (x : KernelM α)
    [h : Commutes (onKern fun k => { k with schedulerAware := aware }) x] :
    Commutes (inMode aware) x := h

/-! ## Read -/

theorem capCount_eq_zero (count : U32) : capCount count = 0 ↔ count = 0 := by
  unfold capCount
  split
  · refine iff_of_false (by decide) ?_
    rintro rfl
    contradiction
  constructor
  · intro h
    exact BitVec.eq_of_toNat_eq h
  · rintro rfl
    rfl

theorem sameInModes_iff {t t' : KState} {c : IOCall}
    (haware : c.run host (s.inMode true) = .ok () t)
      (hdirect : c.run host (s.inMode false) = .ok () t') :
    SameInModes host s id c ↔
      t.kern.blockedPipe = none ∧ t.cpu.regs EAX = t'.cpu.regs EAX ∧
        t.objs.pipeOf id = t'.objs.pipeOf id := by
  constructor
  · rintro ⟨u, u', hu, hu', hsame⟩
    rw [haware] at hu
    rw [hdirect] at hu'
    cases hu
    cases hu'
    exact hsame
  · intro hsame
    exact ⟨t, t', haware, hdirect, hsame⟩

def KState.called (s : KState) (c : HandleCall) (o : Objects) : KState :=
  { s with objs := o, calls := c :: s.calls }

theorem onHandle_of_ok {log : Option Transfer → HandleCall} {x : ObjM Transfer}
    (h : x s.objs = .ok r o) : onHandle log x s = .ok r (s.called (log (some r)) o) := by
  unfold onHandle
  rw [h]
  rfl

theorem blockPipe_free (b : PipeBlock) (hfree : s.kern.blockedPipe = none) :
    ∃ t, blockPipe b s = .ok () t ∧ t.kern.blockedPipe ≠ none := by
  unfold blockPipe
  rw [hfree]
  exact ⟨_, rfl, Option.some_ne_none b⟩

section Read
variable (host : Host) {s : KState} {id : Nat} {fd : Int} (hentry : s.entry fd = some (.pipe id))
  (hnonblock : (s.objs.ends id).nonblock = true) (hfree : s.kern.blockedPipe = none) (addr count : U32)
include hentry hnonblock hfree

omit hentry hnonblock hfree in
theorem pipeReadNonblocking_wouldBlock (h : pipeReadNonblocking id len o = .ok r o') :
    r.err = some .wouldBlock ↔
      len ≠ 0 ∧ (o.ends id).write = false ∧ (o.pipeOf id).data = [] ∧
        (o.pipeOf id).writers ≠ 0 := by
  rw [pipeReadNonblocking_eq] at h
  split at h
  · rename_i hwrite
    cases h
    simp [hwrite]
  rename_i hwrite
  split at h
  · rename_i hlen
    cases h
    simp [hlen]
  rename_i hlen
  have hend : (o.ends id).write = false := Bool.eq_false_of_not_eq_true hwrite
  cases h
  unfold Objects.pipeOf readNonblocking readSection
  split
  · rename_i hdata
    refine iff_of_false nofun fun hand => ?_
    rw [hand.2.2.1] at hdata
    exact absurd hdata (by decide)
  rename_i hdata
  have hnil := eq_nil_of_length_eq_zero (Nat.eq_zero_of_not_pos hdata)
  split
  · rename_i hwriters
    exact iff_of_false nofun fun hand => hand.2.2.2 hwriters
  · exact iff_of_true rfl ⟨hlen, hend, hnil, ‹_›⟩

omit hentry hnonblock hfree in
/-- `storeRead` returns, and leaves the record and the objects alone. -/
theorem storeRead_ok (addr : U32) (r : Transfer) (s : KState) :
    ∃ t, storeRead addr r s = .ok () t ∧ t.kern = s.kern := by
  unfold storeRead
  cases readErrno r.err with
  | some e => exact ⟨_, rfl, rfl⟩
  | none =>
    cases hw : s.mem.writeBytes addr r.bytes with
    | ok mem => exact ⟨_, bind_of_ok (memWriteBytes_of_ok hw), rfl⟩
    | error e => exact ⟨_, bind_of_ok (memWriteBytes_of_error hw), rfl⟩

omit hnonblock hfree in
theorem read_aware (hr : pipeReadNonblocking id (capCount count) s.objs = .ok r o) :
    (read fd addr count).run host (s.inMode true) =
      (if r.err = some .wouldBlock then blockPipe ⟨fd, addr, count, false, []⟩
        else storeRead addr r)
        ((s.called (.read (.pipe id) (capCount count) (some r)) o).inMode true) := by
  have hsource : (s.inMode true).readSource fd (s.inMode true).kern.schedulerAware =
    some (.nonblocking id) := by
    rw [readSource, show (s.inMode true).entry fd = _ from hentry]
    rfl
  show handleRead host fd addr count (s.inMode true) = _
  rw [handleRead, get_bind, hsource]
  have hread : readFrom host (.nonblocking id) (capCount count) (s.inMode true) =
      .ok r ((s.inMode true).called (.read (.pipe id) (capCount count) (some r)) o) :=
        onHandle_of_ok hr
  refine (bind_of_ok hread).trans ?_
  by_cases hblock : r.err = some .wouldBlock
  · rw [if_pos hblock, if_pos (show blocks (.nonblocking id) r = true from decide_eq_true hblock)]
    rfl
  · rw [if_neg hblock, if_neg (show ¬ blocks (.nonblocking id) r = true from
      fun h => hblock (of_decide_eq_true h))]
    rfl

omit hfree in
theorem read_direct (hr : pipeReadNonblocking id (capCount count) s.objs = .ok r o) :
    let q := if r.err = some .wouldBlock then r.again else r
    (read fd addr count).run host (s.inMode false) =
      storeRead addr q ((s.called (.read (.pipe id) (capCount count) (some q)) o).inMode false) := by
  intro q
  have hsource : (s.inMode false).readSource fd (s.inMode false).kern.schedulerAware =
      some (.handle (.pipe id)) := by
    rw [readSource, show (s.inMode false).entry fd = _ from hentry]
    rfl
  show handleRead host fd addr count (s.inMode false) = _
  rw [handleRead, get_bind, hsource]
  have hread : readFrom host (.handle (.pipe id)) (capCount count) (s.inMode false) =
      .ok q ((s.inMode false).called (.read (.pipe id) (capCount count) (some q)) o) :=
    onHandle_of_ok (pipeRead_nonblock hnonblock hr)
  exact bind_of_ok hread

theorem read_same_iff :
    SameInModes host s id (.read fd addr count) ↔ count = 0 ∨ ¬ s.readWaits id := by
  obtain ⟨r, o, hr⟩ := method_ok ⟨fd, addr, count, false, []⟩ id s.objs
  have haware := read_aware host hentry addr count hr
  have hdirect := read_direct host hentry hnonblock addr count hr
  have hwaits : r.err = some .wouldBlock ↔ ¬ (count = 0 ∨ ¬ s.readWaits id) := by
    rw [pipeReadNonblocking_wouldBlock hr, not_or, not_not, Ne, capCount_eq_zero]
    rfl
  by_cases hblock : r.err = some .wouldBlock
  · refine iff_of_false ?_ (hwaits.mp hblock)
    rw [if_pos hblock] at haware
    obtain ⟨u, hu, hblocked⟩ := blockPipe_free ⟨fd, addr, count, false, []⟩
      (s := (s.called (.read (.pipe id) (capCount count) (some r)) o).inMode true) hfree
    rintro ⟨t, t', ht, -, hnone, -⟩
    rw [haware, hu] at ht
    cases ht
    exact hblocked hnone
  · refine iff_of_true ?_ (not_not.mp fun h => hblock (hwaits.mpr h))
    rw [if_neg hblock] at haware hdirect
    obtain ⟨t', ht', hkern⟩ := storeRead_ok addr r _
    refine (sameInModes_iff (haware.trans (Commutes.of_ok ht')) (hdirect.trans (Commutes.of_ok ht'))).mpr ⟨?_, rfl, rfl⟩
    show t'.kern.blockedPipe = none
    rw [hkern]
    exact hfree

end Read

/-! ## Write -/

def writeValue (r : Transfer) : U32 :=
  match r.err with
  | none => BitVec.ofNat 32 r.count
  | some .brokenPipe => epipe
  | some .again => eagain
  | some _ => efault

theorem retWrite_value (r : Transfer) : retWrite r = ret (writeValue r) := by
  obtain ⟨count, err, bytes⟩ := r
  cases err with
  | none => rfl
  | some e => cases e <;> rfl

structure Leaves (s t : KState) (v : U32) (o : Objects) : Prop where
  value : t.cpu.regs EAX = v
  objs : t.objs = o
  record : t.kern.blockedPipe = s.kern.blockedPipe

theorem retNonblocking_leaves (hagain : r.err ≠ some .again) (s : KState) :
    ∃ t, retNonblocking r s = .ok () t ∧ Leaves s t (writeValue r) s.objs := by
  obtain ⟨count, err, bytes⟩ := r
  cases err with
  | none => exact ⟨_, rfl, rfl, rfl, rfl⟩
  | some e =>
    cases e with
    | brokenPipe => exact ⟨_, rfl, rfl, rfl, queueSignal_blockedPipe _ _⟩
    | again => exact absurd rfl hagain
    | _ => exact ⟨_, rfl, rfl, rfl, rfl⟩

/-- `writeBytes` and what `handleWrite` does after it. -/
theorem writeBytes_leaves {fd : Int}
    (htarget : s.writeTarget fd = some e) (hw : e.write host data s.objs = .ok r o) :
    ∃ t, (writeBytes host fd data >>= retWrite) s = .ok () t ∧ Leaves s t (writeValue r) o := by
  have hto : writeTo host e data s = .ok r (s.called (.write e.target data (some r)) o) :=
    onHandle_of_ok hw
  have hbytes : writeBytes host fd data s =
      (do if r.err = some .brokenPipe then queueSignal 13
          return r : KernelM Transfer) (s.called (.write e.target data (some r)) o) := by
    unfold writeBytes
    rw [get_bind, htarget]
    exact bind_of_ok hto
  by_cases hbroken : r.err = some .brokenPipe
  · rw [if_pos hbroken] at hbytes
    refine ⟨_, (bind_of_ok hbytes).trans (congrFun (retWrite_value r) _), rfl, rfl,
      queueSignal_blockedPipe _ _⟩
  · rw [if_neg hbroken] at hbytes
    exact ⟨_, (bind_of_ok hbytes).trans (congrFun (retWrite_value r) _), rfl, rfl, rfl⟩

/-- `WriteNonblocking`: the wrong end, nothing to write, or one of the four answers of the pipe. -/
theorem pipeWriteNonblocking_cases (h : pipeWriteNonblocking id src o = .ok r o') :
    ((o.ends id).write = false ∧ r = ⟨0, some .invalid, []⟩ ∧ o'.pipeOf id = o.pipeOf id) ∨
    ((o.ends id).write = true ∧ src = [] ∧ r = ⟨0, none, []⟩ ∧ o'.pipeOf id = o.pipeOf id) ∨
    ((o.ends id).write = true ∧ src ≠ [] ∧
      (o.pipeOf id).writeNonblocking src = (r, o'.pipeOf id)) := by
  rw [pipeWriteNonblocking_eq] at h
  split at h
  · cases h
    exact .inl ⟨‹_›, rfl, rfl⟩
  rename_i hwrite
  split at h
  · cases h
    exact .inr (.inl ⟨Bool.eq_true_of_not_eq_false hwrite, eq_nil_of_length_eq_zero ‹_›, rfl, rfl⟩)
  rename_i hlen
  cases h
  refine .inr (.inr ⟨Bool.eq_true_of_not_eq_false hwrite, fun hnil => hlen (by rw [hnil]; rfl), ?_⟩)
  exact Prod.ext rfl (Objects.setPipe_self ..).symm

theorem pipeWriteNonblocking_ne_again
    (h : pipeWriteNonblocking id src o = .ok r o') : r.err ≠ some .again := by
  rcases pipeWriteNonblocking_cases h with ⟨-, rfl, -⟩ | ⟨-, -, rfl, -⟩ | ⟨-, -, hnb⟩
  · decide
  · decide
  rcases writeNonblocking_cases hnb with
    ⟨-, rfl, -⟩ | ⟨-, -, rfl, -⟩ | ⟨-, -, -, rfl, -⟩ | ⟨-, room, -, -, -, rfl, -⟩
  · decide
  · decide
  · exact (Option.some_ne_none _).symm
  · exact (Option.some_ne_none _).symm

section Write
variable (host : Host) {s : KState} {id : Nat} {fd : Int} (hentry : s.entry fd = some (.pipe id))
  (hfree : s.kern.blockedPipe = none) {addr count : U32} {data : List U8}
  (hdata : writeSegments s.mem addr count = [data]) {r : Transfer} {o : Objects}
  (hr : pipeWriteNonblocking id data s.objs = .ok r o)
include hentry hfree hdata hr

/-- With a scheduler: the task blocks, or the answer of the pipe is returned. -/
theorem write_aware :
    ∃ t, (write fd addr count).run host (s.inMode true) = .ok () t ∧
      (if r.err = some .wouldBlock then t.kern.blockedPipe ≠ none else Leaves s t (writeValue r) o) := by
  have htarget : (s.inMode true).nonblockingTarget fd = some (.nonblocking id) := by
    rw [nonblockingTarget, show (s.inMode true).entry fd = _ from hentry]
    rfl
  have hrun : (write fd addr count).run host (s.inMode true) =
      (if blocks (.nonblocking id) r = true then blockPipe ⟨fd, addr, count, true, data⟩
        else retNonblocking r) ((s.inMode true).called (.write (.pipe id) data (some r)) o) := by
    have hto : writeTo host (.nonblocking id) data (s.inMode true) =
        .ok r ((s.inMode true).called (.write (.pipe id) data (some r)) o) := onHandle_of_ok hr
    refine (handleWrite_readable host fd (s := s.inMode true) hdata).1.trans ?_
    rw [handleWriteData_nonblocking host addr count data htarget]
    exact bind_of_ok hto
  by_cases hblock : r.err = some .wouldBlock
  · rw [if_pos (show blocks (.nonblocking id) r = true from decide_eq_true hblock)] at hrun
    obtain ⟨t, ht, hblocked⟩ := blockPipe_free ⟨fd, addr, count, true, data⟩
      (s := (s.inMode true).called (.write (.pipe id) data (some r)) o) hfree
    refine ⟨t, hrun.trans ht, ?_⟩
    rw [if_pos hblock]
    exact hblocked
  rw [if_neg (show ¬ blocks (.nonblocking id) r = true from fun h => hblock (of_decide_eq_true h))] at hrun
  obtain ⟨t, ht, hvalue, hobjs, hrecord⟩ := retNonblocking_leaves (pipeWriteNonblocking_ne_again hr)
    ((s.inMode true).called (.write (.pipe id) data (some r)) o)
  refine ⟨t, hrun.trans ht, ?_⟩
  rw [if_neg hblock]
  exact ⟨hvalue, hobjs, hrecord⟩

omit hr hfree in
/-- Without one: what the terminal or the pipe answers is returned. -/
theorem write_direct (htarget : s.writeTarget fd = some e)
    (hw : e.write host data s.objs = .ok q o') :
    ∃ t, (write fd addr count).run host (s.inMode false) = .ok () t ∧
      Leaves s t (writeValue q) o' := by
  have hnone : (s.inMode false).nonblockingTarget fd = none := by
    rw [nonblockingTarget, show (s.inMode false).entry fd = _ from hentry]
    rfl
  obtain ⟨t, ht, hvalue, hobjs, hrecord⟩ := writeBytes_leaves (s := s.inMode false) htarget hw
  refine ⟨t, ?_, hvalue, hobjs, hrecord⟩
  refine (handleWrite_readable host fd (s := s.inMode false) hdata).1.trans ?_
  rw [handleWriteData_blocking host addr count data hnone]
  exact ht

theorem write_same_iff_answers (htarget : s.writeTarget fd = some e)
    (hw : e.write host data s.objs = .ok q o') :
    SameInModes host s id (.write fd addr count) ↔
      r.err ≠ some .wouldBlock ∧ writeValue r = writeValue q ∧ o.pipeOf id = o'.pipeOf id := by
  obtain ⟨t, ht, hleaves⟩ := write_aware host hentry hfree hdata hr
  obtain ⟨t', ht', hleaves'⟩ := write_direct host hentry hdata htarget hw
  rw [sameInModes_iff ht ht', hleaves'.value, hleaves'.objs]
  by_cases hblock : r.err = some .wouldBlock
  · rw [if_pos hblock] at hleaves
    exact iff_of_false (fun hand => hleaves hand.1) fun hand => hand.1 hblock
  · rw [if_neg hblock] at hleaves
    rw [hleaves.value, hleaves.objs, hleaves.record, and_iff_right hfree, and_iff_right hblock]

end Write

theorem ofNat_ne_of_lt {n : Nat} {v : U32} (hn : n < 2 ^ 31) (hv : v.toInt < 0) :
    BitVec.ofNat 32 n ≠ v := by
  rintro rfl
  rw [toInt_ofNat_of_lt hn] at hv
  omega

section WriteIff
variable {host : Host} {s : KState} {id : Nat} {fd : Int} (hentry : s.entry fd = some (.pipe id))
  (hfree : s.kern.blockedPipe = none) {addr count : U32} {data : List U8}
  (hdata : writeSegments s.mem addr count = [data])
include hentry hfree hdata

theorem write_same_iff_pipe (hnonblock : (s.objs.ends id).nonblock = true)
    (htarget : s.writeTarget fd = some (.handle (.pipe id))) :
    SameInModes host s id (.write fd addr count) ↔ s.takesAll id data := by
  obtain ⟨r, o, hr⟩ : ∃ r o, pipeWriteNonblocking id data s.objs = .ok r o :=
    method_ok ⟨fd, addr, count, true, data⟩ id s.objs
  rw [write_same_iff_answers host hentry hfree hdata hr htarget (pipeWrite_nonblock hnonblock hr)]
  unfold takesAll
  rcases pipeWriteNonblocking_cases hr with ⟨hend, rfl, -⟩ | ⟨hend, hnil, rfl, -⟩ | ⟨hend, hne, hnb⟩
  · exact iff_of_true ⟨by decide, by rw [if_neg (by simp [Transfer.Unfinished])], rfl⟩ (.inl hend)
  · refine iff_of_true ⟨by decide, ?_, rfl⟩ (.inr (.inl hnil))
    rw [if_neg (by simp [Transfer.Unfinished, hnil])]
  rw [or_iff_right (by rw [hend]; decide), or_iff_right hne]
  rcases writeNonblocking_cases hnb with
    ⟨hreaders, rfl, -⟩ | ⟨hreaders, hfull, rfl, -⟩ | ⟨hreaders, hroom, hfits, rfl, -⟩ |
      ⟨hreaders, room, hpos, hroom, hlong, rfl, -⟩
  · exact iff_of_true ⟨by decide, by rw [if_neg (by simp [Transfer.Unfinished])],
      rfl⟩ (.inl hreaders)
  · have hlen := length_pos_iff.mpr hne
    exact iff_of_false (fun hand => hand.1 rfl) fun hor => hor.elim hreaders (by omega)
  · refine iff_of_true ⟨?_, ?_, rfl⟩ (.inr hfits)
    · exact (Option.some_ne_none _).symm
    · rw [if_neg (by simp [Transfer.Unfinished])]
  refine iff_of_false (fun hand => ?_) fun hor => hor.elim hreaders (by omega)
  have hvalue := hand.2.1
  rw [if_pos (.inr ⟨rfl, hlong⟩)] at hvalue
  have hcapacity : pipeCapacity = 65536 := rfl
  exact ofNat_ne_of_lt (show room < 2 ^ 31 by omega) (show eagain.toInt < 0 by decide) hvalue

theorem write_same_iff_terminal {tty : Nat} (htarget : s.writeTarget fd = some (.terminal tty))
    (hlen : data.length < 2 ^ 31) :
    SameInModes host s id (.write fd addr count) ↔ s.terminalAgrees id tty data := by
  obtain ⟨r, o, hr⟩ : ∃ r o, pipeWriteNonblocking id data s.objs = .ok r o :=
    method_ok ⟨fd, addr, count, true, data⟩ id s.objs
  have hw : write host data (.terminal tty) s.objs = .ok ((s.objs.terminals tty).writeOutput data).1
      (s.objs.setTerminal tty ((s.objs.terminals tty).writeOutput data).2) := rfl
  rw [write_same_iff_answers host hentry hfree hdata hr htarget hw]
  have hpipe : (s.objs.setTerminal tty ((s.objs.terminals tty).writeOutput data).2).pipeOf id =
    s.objs.pipeOf id := rfl
  have hvalue : writeValue ((s.objs.terminals tty).writeOutput data).1 =
      if (s.objs.terminals tty).closed = true then efault else BitVec.ofNat 32 data.length := by
    unfold Terminal.writeOutput
    split <;> rfl
  rw [hpipe, hvalue]
  have hcount : BitVec.ofNat 32 data.length ≠ efault := ofNat_ne_of_lt hlen (by decide)
  have hother (h : (s.objs.ends id).write = true) : ¬ (s.objs.ends id).write = false := by
    rw [h]
    decide
  rcases pipeWriteNonblocking_cases hr with ⟨hend, rfl, hsame⟩ | ⟨hend, hnil, rfl, hsame⟩ | ⟨hend, hne, hnb⟩
  · rw [terminalAgrees, if_pos hend, and_iff_right (by decide), and_iff_left hsame]
    by_cases hclosed : (s.objs.terminals tty).closed = true
    · exact iff_of_true (if_pos hclosed).symm hclosed
    · rw [if_neg hclosed]
      exact iff_of_false (Ne.symm hcount) hclosed
  · rw [terminalAgrees, if_neg (hother hend), and_iff_right (by decide), and_iff_left hsame, and_iff_right hnil, hnil]
    cases (s.objs.terminals tty).closed with
    | true => exact iff_of_false (by decide) (by decide)
    | false => exact iff_of_true rfl rfl
  -- a pipe that has something to write says so, or changes
  rw [terminalAgrees, if_neg (hother hend)]
  refine iff_of_false ?_ fun hand => hne hand.1
  rintro ⟨hblock, hval, hsame⟩
  rcases writeNonblocking_cases hnb with
    ⟨-, rfl, -⟩ | ⟨-, -, rfl, -⟩ | ⟨-, -, -, -, hpipe'⟩ | ⟨-, room, hpos, -, hlong, -, hpipe'⟩
  · split at hval
    · exact absurd hval (by decide)
    · exact ofNat_ne_of_lt hlen (by decide) hval.symm
  · exact hblock rfl
  · rw [hpipe'] at hsame
    exact hne (append_right_eq_self.mp (congrArg Pipe.data hsame))
  rw [hpipe'] at hsame
  have hnil := append_right_eq_self.mp (congrArg Pipe.data hsame)
  have hzero := congrArg length hnil
  rw [length_take_of_le (Nat.le_of_lt hlong)] at hzero
  exact Nat.ne_of_gt hpos hzero

end WriteIff

theorem length_of_writeSegments {mem : Memory} {addr count : U32}
    (h : writeSegments mem addr count = [data]) : data.length < 2 ^ 31 := by
  unfold writeSegments Memory.readBytes Memory.readWith at h
  split at h
  · cases h
  obtain rfl : loadBytes mem.data addr (BitVec.ofNat 32 (capCount count)).toNat = data :=
    singleton_inj.mp h
  rw [length_loadBytes]
  unfold capCount
  split
  · decide
  · rename_i hle
    have hmax : ¬ 2 ^ 20 < count.toNat := hle
    exact Nat.lt_of_le_of_lt (Nat.mod_le ..) (by omega)

section Whole
variable {host : Host} {s : KState} {id : Nat} {fd : Int} (hentry : s.entry fd = some (.pipe id))
  (hnonblock : (s.objs.ends id).nonblock = true) (hfree : s.kern.blockedPipe = none) {addr count : U32}
include hentry hnonblock hfree

theorem write_same_iff :
    SameInModes host s id (.write fd addr count) ↔ (write fd addr count).agrees s id := by
  show _ ↔ ∀ data ∈ writeSegments s.mem addr count, _
  cases hseg : writeSegments s.mem addr count with
  | nil =>
    refine iff_of_true ?_ fun data hmem => absurd hmem not_mem_nil
    have hrun (aware : Bool) : (write fd addr count).run host (s.inMode aware) = _ :=
      handleWrite_unreadable host fd (s := s.inMode aware) hseg
    exact (sameInModes_iff (hrun true) (hrun false)).mpr ⟨hfree, rfl, rfl⟩
  | cons data rest =>
    obtain rfl := (handleWrite_readable host fd hseg).2
    rw [forall_mem_singleton]
    rcases writeTarget_pipe hentry with htarget | ⟨tty, htarget⟩
    · rw [write_same_iff_pipe hentry hfree hseg hnonblock htarget, htarget]
      exact ⟨fun h => ⟨nofun, fun _ => h⟩, fun h => h.2 rfl⟩
    rw [write_same_iff_terminal hentry hfree hseg htarget (length_of_writeSegments hseg), htarget]
    refine ⟨fun h => ⟨fun tty' heq => ?_, nofun⟩, fun h => h.1 tty rfl⟩
    cases heq
    exact h

/-- Nothing to read: with a scheduler the task blocks, without one it gets `-EAGAIN`. -/
theorem read_waits (hcount : count ≠ 0) (hwaits : s.readWaits id) :
    BlocksOrAgain host s (.read fd addr count) := by
  obtain ⟨r, o, hr⟩ : ∃ r o, pipeReadNonblocking id (capCount count) s.objs = .ok r o :=
    method_ok ⟨fd, addr, count, false, []⟩ id s.objs
  have hblock : r.err = some .wouldBlock :=
    (pipeReadNonblocking_wouldBlock hr).mpr ⟨fun h => hcount ((capCount_eq_zero count).mp h),
      hwaits⟩
  have haware := read_aware host hentry addr count hr
  have hdirect := read_direct host hentry hnonblock addr count hr
  rw [if_pos hblock] at haware hdirect
  obtain ⟨t, ht, hblocked⟩ := blockPipe_free ⟨fd, addr, count, false, []⟩
    (s := (s.called (.read (.pipe id) (capCount count) (some r)) o).inMode true) hfree
  exact ⟨⟨t, haware.trans ht, hblocked⟩, ⟨_, hdirect, rfl⟩⟩

/-- No room: with a scheduler the task blocks, without one it gets `-EAGAIN`. -/
theorem write_waits (hseg : writeSegments s.mem addr count = [data])
    (htarget : s.writeTarget fd = some (.handle (.pipe id))) (hne : data ≠ [])
      (hfull : s.writeWaits id) :
    BlocksOrAgain host s (.write fd addr count) := by
  obtain ⟨hend, hreaders, hroom⟩ := hfull
  obtain ⟨r, o, hr⟩ : ∃ r o, pipeWriteNonblocking id data s.objs = .ok r o :=
    method_ok ⟨fd, addr, count, true, data⟩ id s.objs
  have hblock : r = ⟨0, some .wouldBlock, []⟩ := by
    rcases pipeWriteNonblocking_cases hr with ⟨hend', -, -⟩ | ⟨-, hnil, -, -⟩ | ⟨-, -, hnb⟩
    · rw [hend] at hend'
      cases hend'
    · exact absurd hnil hne
    rcases writeNonblocking_cases hnb with
      ⟨hzero, -, -⟩ | ⟨-, -, rfl, -⟩ | ⟨-, hspace, -, -, -⟩ | ⟨-, room, hpos, hspace, -, -, -⟩
    · exact absurd hzero hreaders
    · rfl
    · omega
    · omega
  subst hblock
  obtain ⟨t, ht, hblocked⟩ := write_aware host hentry hfree hseg hr
  obtain ⟨t', ht', hleaves⟩ :=
    write_direct host hentry hseg htarget (pipeWrite_nonblock hnonblock hr)
  refine ⟨⟨t, ht, hblocked⟩, ⟨t', ht', ?_⟩⟩
  rw [hleaves.value, if_pos (.inl rfl)]
  rfl

end Whole

/-- **When the modes agree.**  On a pipe end with `O_NONBLOCK`, in a task that is not blocked: a `read`
or `write` gives the same under a scheduler as without one exactly if `IOCall.agrees`; and if there is
nothing to read, or no room, only without one is it `-EAGAIN`.  A `readv` or `writev` does the same in
both modes, on any descriptor. -/
theorem modes_agree_iff (host : Host) (s : KState) :
    (∀ (id : Nat) (fd : Int) (addr count : U32), s.entry fd = some (.pipe id) →
      (s.objs.ends id).nonblock = true → s.kern.blockedPipe = none →
      (SameInModes host s id (.read fd addr count) ↔ (read fd addr count).agrees s id) ∧
      (SameInModes host s id (.write fd addr count) ↔ (write fd addr count).agrees s id) ∧
      (count ≠ 0 → s.readWaits id → BlocksOrAgain host s (.read fd addr count)) ∧
      (∀ data, writeSegments s.mem addr count = [data] →
        s.writeTarget fd = some (.handle (.pipe id)) →
        data ≠ [] → s.writeWaits id → BlocksOrAgain host s (.write fd addr count))) ∧
    (∀ fd iov count aware,
      (readv fd iov count).run host (s.inMode aware) =
        mapState (inMode aware) ((readv fd iov count).run host s) ∧
      (writev fd iov count).run host (s.inMode aware) =
        mapState (inMode aware) ((writev fd iov count).run host s)) := by
  refine ⟨fun id fd addr count hentry hnonblock hfree => ⟨?_, ?_, ?_, ?_⟩,
    fun fd iov count aware => ⟨?_, ?_⟩⟩
  · exact read_same_iff host hentry hnonblock hfree addr count
  · exact write_same_iff hentry hnonblock hfree
  · exact read_waits hentry hnonblock hfree
  · intro data hseg htarget hne hfull
    exact write_waits hentry hnonblock hfree hseg htarget hne hfull
  · exact Commutes.commutes (x := handleReadvLoop host fd iov _ 0 0) s
  · exact Commutes.commutes (x := handleWritevLoop host fd iov _ 0 0) s

/-- Descriptor 3 is the read end of a pipe with `O_NONBLOCK`, and 4 and 1 are its write end; there is a
terminal. -/
def nonblockTask (p : Pipe) : KState :=
  { new true (some 0) CPU.new twoBytes
      { Objects.new with pipes := fun _ => p, ends := fun id => ⟨0, id == 1, true, false⟩ } with
    files := ((Files.new.install 3 (.pipe 0)).install 4 (.pipe 1)).install 1 (.pipe 1) }

/-- Two bytes read from a pipe that holds three. -/
theorem modes_agree_iff_three :
    SameInModes Host.silent (nonblockTask { Pipe.new with data := [1, 2, 3] }) 0 (.read 3 16 2) :=
  ((modes_agree_iff Host.silent (nonblockTask { Pipe.new with data := [1, 2, 3] })).1 0 3 16 2
    (by decide) rfl rfl).1.mpr (.inr fun hwaits => cons_ne_nil _ _ hwaits.2.1)

theorem nonblockTask_segments (p : Pipe) : writeSegments (nonblockTask p).mem 16 2 = [[7, 7]] :=
  twoBytes_segments.1

theorem nonblockTask_entries (p : Pipe) :
    (nonblockTask p).entry 3 = some (.pipe 0) ∧ (nonblockTask p).entry 4 = some (.pipe 1) ∧
      (nonblockTask p).entry 1 = some (.pipe 1) := ⟨rfl, rfl, rfl⟩

theorem not_takesAll {p : Pipe} (hreaders : p.readers ≠ 0)
    (hroom : p.data.length = pipeCapacity - 1) :
    ¬ (nonblockTask p).takesAll 1 [7, 7] := by
  rintro (hend | hnil | hzero | hfits)
  · cases hend
  · exact cons_ne_nil _ _ hnil
  · exact hreaders hzero
  · have hlen : p.data.length + 2 ≤ pipeCapacity := hfits
    omega

/-- From an empty pipe a read blocks under a scheduler and returns `-EAGAIN` without one.  Two bytes
are written to a pipe with room for one, and to a pipe that is descriptor 1: the modes do not agree. -/
theorem modes_disagree :
    BlocksOrAgain Host.silent (nonblockTask Pipe.new) (.read 3 16 2) ∧
      ¬ SameInModes Host.silent (nonblockTask nearlyFull) 1 (.write 4 16 2) ∧
      ¬ SameInModes Host.silent (nonblockTask Pipe.new) 1 (.write 1 16 2) := by
  refine ⟨?_, ?_, ?_⟩
  · exact read_waits (nonblockTask_entries _).1 rfl rfl (by decide) ⟨rfl, rfl, by decide⟩
  · rw [write_same_iff_pipe (nonblockTask_entries _).2.1 rfl (nonblockTask_segments _) rfl rfl]
    exact not_takesAll (show (1 : Int) ≠ 0 by decide) nearlyFull_length
  · rw [write_same_iff_terminal (nonblockTask_entries _).2.2 rfl (nonblockTask_segments _)
      (show (nonblockTask Pipe.new).writeTarget 1 = some (.terminal 0) from rfl) (by decide)]
    exact fun hagrees => cons_ne_nil _ _ hagrees.1

end IshGo.Kernel
