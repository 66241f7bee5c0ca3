/-
# `IshGo.Kernel.PipeCount` — the counts of a pipe over many processes

Processes with separate tables over one set of objects.  A process makes a call on its
own table or moves bytes, a process forks, a process exits.
-/
import IshGo.Kernel.Frame

namespace IshGo.Kernel

open I386 Lib List

variable {src : List U8}

/-! ## Processes -/

structure Proc where
  cpu : CPU
  mem : Memory
  kern : Kernel
  files : Files

def Proc.enter (p : Proc) (objs : Objects) : KState :=
  { cpu := p.cpu, mem := p.mem, kern := p.kern, files := p.files
    actions := fun _ => ⟨0, 0, 0, 0⟩, objs := objs, futex := Futexes.new, calls := [] }

def KState.proc (s : KState) : Proc := ⟨s.cpu, s.mem, s.kern, s.files⟩

inductive ProcOp where
  | table (op : TableOp)
  | io (c : IOCall)
  | closeOnExit

def ProcOp.run (host : Host) (s : KState) : ProcOp → KState
  | .table op => op.run host s
  | .io c => after (c.run host) s
  | .closeOnExit => s.closeOnExit

structure System where
  procs : List Proc
  objs : Objects

variable {id len : Nat} {o o' : Objects} {p : Pipe} {S : System} {r : Transfer}

namespace System

/-- The operation of the process with index `i`. -/
def act (S : System) (host : Host) (i : Nat) (op : ProcOp) : System :=
  match S.procs[i]? with
  | none => S
  | some p =>
    let s := op.run host (p.enter S.objs)
    { procs := S.procs.set i s.proc, objs := s.objs }

/-- `CloneForChild` of the process with index `i`. -/
def fork (S : System) (i : Nat) (pid : U32) : System :=
  match S.procs[i]? with
  | none => S
  | some p =>
    let r := p.files.cloneForChild S.objs
    { procs := { p with kern := p.kern.cloneForChild pid, files := r.1 } :: S.procs, objs := r.2 }

inductive Reach (host : Host) : System → Prop
  | start {procs : List Proc} {objs : Objects} : (∀ p ∈ procs, p.files = Files.new) →
      objs.nextPipe = 0 → objs.nextEnd = 0 → Reach host ⟨procs, objs⟩
  | act {S : System} (i : Nat) (op : ProcOp) : Reach host S → Reach host (S.act host i op)
  | fork {S : System} (i : Nat) (pid : U32) : Reach host S → Reach host (S.fork i pid)

def entries (S : System) : List (Σ _ : Int, Handle) := S.procs.flatMap fun p => p.files.fds.entries

end System

def Objects.holds (o : Objects) (p : Nat) (write : Bool) : Handle → Bool
  | .pipe id => o.isEnd p write id
  | .file _ | .virtual _ | .null | .zero | .tty _ => false

/-- How many entries hold a read handle, or a write handle, of the pipe. -/
def System.holders (S : System) (p : Nat) (write : Bool) : Nat :=
  S.entries.countP fun e => S.objs.holds p write e.2

/-! ## The invariant -/

namespace System

def held (S : System) : List Nat := S.procs.flatMap fun p => p.files.held

theorem held_eq_entries (S : System) : S.held = S.entries.flatMap fun e => e.2.pipeEnd :=
  (flatMap_assoc).symm

theorem countP_pipeEnds (o : Objects) (p : Nat) (write : Bool) (l : List (Σ _ : Int, Handle)) :
    (l.flatMap fun e => e.2.pipeEnd).countP (o.isEnd p write) =
      l.countP fun e => o.holds p write e.2 := by
  induction l with
  | nil => rfl
  | cons e l ih =>
    rw [flatMap_cons, countP_append, countP_cons, ih, Nat.add_comm]
    obtain ⟨fd, h⟩ := e
    cases h with
    | pipe id => exact congrArg (_ + ·) countP_singleton
    | _ => rfl

theorem holders_eq (S : System) (p : Nat) (write : Bool) :
    S.holders p write = S.held.countP (S.objs.isEnd p write) := by
  rw [held_eq_entries, countP_pipeEnds]
  rfl

end System

theorem TableOp.accounts (host : Host) (s : KState) (op : TableOp) : Accounts s (op.run host s) := by
  cases op with
  | «open» pathAddr flags mode => exact accounts_open host s pathAddr flags mode
  | pipe addr flags => exact accounts_pipe s addr flags
  | dup2 oldFD newFD => exact accounts_dupResult s oldFD newFD 0 false
  | dup3 oldFD newFD flags => exact accounts_dupResult s oldFD newFD flags true
  | fcntl fd command argument => exact accounts_fcntl s fd command argument
  | close fd => exact accounts_close s fd
  | closeCloexec => exact accounts_closeCloexec s
  | guest cpu mem => exact .refl s

theorem ProcOp.accounts (host : Host) (s : KState) (op : ProcOp) : Accounts s (op.run host s) := by
  cases op with
  | table op => exact op.accounts host s
  | io c =>
    have hmoves : Moves s (after (c.run host) s) := Stays.stays s
    exact hmoves.accounts
  | closeOnExit => exact accounts_closeOnExit s

theorem flatMap_set_perm {α β : Type} (f : α → List β) {l : List α} {i : Nat} {a : α}
    (h : l[i]? = some a) :
    ∃ rest, (l.flatMap f).Perm (f a ++ rest) ∧ ∀ b, ((l.set i b).flatMap f).Perm (f b ++ rest) := by
  induction l generalizing i with
  | nil => cases h
  | cons x l ih =>
    cases i with
    | zero =>
      cases h
      exact ⟨l.flatMap f, .refl _, fun b => .refl _⟩
    | succ i =>
      obtain ⟨rest, hold, hnew⟩ := ih h
      refine ⟨f x ++ rest, ?_, fun b => ?_⟩
      · exact (hold.append_left (f x)).trans (perm_append_comm_assoc _ _ _)
      · exact ((hnew b).append_left (f x)).trans (perm_append_comm_assoc _ _ _)

namespace System

theorem counted_act (host : Host) (i : Nat) (op : ProcOp) (h : S.objs.Counted S.held) :
    (S.act host i op).objs.Counted (S.act host i op).held := by
  rw [act]
  cases hp : S.procs[i]? with
  | none => exact h
  | some p =>
    obtain ⟨rest, hold, hnew⟩ := flatMap_set_perm (fun p : Proc => p.files.held) hp
    have hc := op.accounts host (p.enter S.objs) rest (h.perm hold)
    exact hc.perm (hnew (op.run host (p.enter S.objs)).proc).symm

theorem counted_fork (i : Nat) (pid : U32) (h : S.objs.Counted S.held) :
    (S.fork i pid).objs.Counted (S.fork i pid).held := by
  rw [fork]
  cases hp : S.procs[i]? with
  | none => exact h
  | some p =>
    obtain ⟨rest, hold, _⟩ := flatMap_set_perm (fun p : Proc => p.files.held) hp
    have hc := counted_cloneForChild (h.perm hold)
    exact hc.perm (hold.symm.append_left _)

theorem Reach.counted {host : Host} (h : S.Reach host) : S.objs.Counted S.held := by
  induction h with
  | @start procs objs hnew hpipe hend =>
    have hnil : (⟨procs, objs⟩ : System).held = [] := by
      refine flatMap_eq_nil_iff.mpr fun p hp => ?_
      rw [hnew p hp]
      rfl
    rw [hnil]
    refine ⟨nodup_nil, fun id hid => absurd hid not_mem_nil, fun p hp => ?_⟩
    exact absurd hp (by rw [hpipe]; exact Nat.not_lt_zero p)
  | act i op _ ih => exact counted_act host i op ih
  | fork i pid _ ih => exact counted_fork i pid ih

end System

/-! ## End of file and `EPIPE` -/

namespace Pipe

theorem readNonblocking_eof (he : (p.readNonblocking len).1.err = some .eof) : p.writers = 0 := by
  rw [readNonblocking] at he
  cases h : p.readSection len with
  | none =>
    rw [h] at he
    cases he
  | some r =>
    rw [h] at he
    exact ((readSection_ends h).2 _ he).2

theorem writeNonblocking_brokenPipe
    (he : (p.writeNonblocking src).1.err = some .brokenPipe) : p.readers = 0 := by
  rw [writeNonblocking] at he
  cases h : p.writeSection src with
  | none =>
    rw [h] at he
    cases he
  | some r =>
    rw [h] at he
    exact ((writeSection_ends h).2 _ he).2

theorem readTurn_eof {nonblock : Bool} {n : Nat}
    (he : (p.readTurn nonblock len).1 = .ret n (some .eof)) : p.writers = 0 := by
  rw [readTurn] at he
  cases h : p.readSection len with
  | none =>
    rw [h] at he
    cases nonblock <;> cases he
  | some r =>
    rw [h] at he
    injection he with _ herr
    exact ((readSection_ends h).2 _ herr).2

theorem writeTurn_brokenPipe {nonblock : Bool} {written n : Nat}
    (he : (p.writeTurn nonblock src written).1 = .ret n (some .brokenPipe)) : p.readers = 0 := by
  rw [writeTurn] at he
  cases h : p.writeSection (src.drop written) with
  | none =>
    rw [h] at he
    cases nonblock <;> cases he
  | some r =>
    rw [h] at he
    simp only at he
    split at he
    · injection he with _ herr
      exact ((writeSection_ends h).2 _ herr).2
    · split at he
      · cases he
      · cases he

end Pipe

theorem pipeReadNonblocking_eq (id len : Nat) (o : Objects) :
    pipeReadNonblocking id len o =
      if (o.ends id).write then .ok ⟨0, some .invalid, []⟩ o
      else if len = 0 then .ok ⟨0, none, []⟩ o
      else .ok ((o.pipes (o.ends id).pipe).readNonblocking len).1
        (o.setPipe (o.ends id).pipe ((o.pipes (o.ends id).pipe).readNonblocking len).2) := by
  unfold pipeReadNonblocking
  rw [get_bind]
  repeat' split
  all_goals rfl

theorem pipeWriteNonblocking_eq (id : Nat) (src : List U8) (o : Objects) :
    pipeWriteNonblocking id src o =
      if (o.ends id).write = false then .ok ⟨0, some .invalid, []⟩ o
      else if src.length = 0 then .ok ⟨0, none, []⟩ o
      else .ok ((o.pipes (o.ends id).pipe).writeNonblocking src).1
        (o.setPipe (o.ends id).pipe ((o.pipes (o.ends id).pipe).writeNonblocking src).2) := by
  unfold pipeWriteNonblocking
  rw [get_bind]
  repeat' split
  all_goals rfl

theorem pipeReadNonblocking_eof (h : pipeReadNonblocking id len o = .ok r o')
    (he : r.err = some .eof) : (o.pipes (o.ends id).pipe).writers = 0 := by
  rw [pipeReadNonblocking_eq] at h
  split at h
  · cases h
    cases he
  split at h
  · cases h
    cases he
  · cases h
    exact Pipe.readNonblocking_eof he

theorem pipeWriteNonblocking_brokenPipe
    (h : pipeWriteNonblocking id src o = .ok r o') (he : r.err = some .brokenPipe) :
    (o.pipes (o.ends id).pipe).readers = 0 := by
  rw [pipeWriteNonblocking_eq] at h
  split at h
  · cases h
    cases he
  split at h
  · cases h
    cases he
  · cases h
    exact Pipe.writeNonblocking_brokenPipe he

theorem pipeRead_eof (h : pipeRead id len o = .ok r o') (he : r.err = some .eof) :
    (o.pipes (o.ends id).pipe).writers = 0 := by
  simp only [pipeRead, get_bind] at h
  split at h
  · cases h
    cases he
  split at h
  · cases h
    cases he
  rw [get_bind, modify_bind] at h
  cases hret : ((o.pipes (o.ends id).pipe).readTurn (o.ends id).nonblock len).1 with
  | ret n err =>
    rw [hret] at h
    cases h
    rw [show err = some .eof from he] at hret
    exact Pipe.readTurn_eof hret
  | next n =>
    rw [hret] at h
    cases h
  | wait =>
    rw [hret] at h
    cases h

/-- The loop of a write, by induction on the turns left: the counts do not change. -/
theorem pipeWriteLoop_brokenPipe {e : PipeEnd} (fuel : Nat) :
    ∀ {written : Nat} {o : Objects}, pipeWriteLoop e src fuel written o = .ok r o' →
      r.err = some .brokenPipe → (o.pipes e.pipe).readers = 0 := by
  induction fuel with
  | zero => exact fun h => nomatch h
  | succ fuel ih =>
    intro written o h he
    have hsame := Pipe.sameEnds_writeTurn (o.pipes e.pipe) e.nonblock src written
    rw [pipeWriteLoop, get_bind, modify_bind] at h
    cases hturn : ((o.pipes e.pipe).writeTurn e.nonblock src written).1 with
    | ret n err =>
      rw [hturn] at h
      cases h
      rw [show err = some .brokenPipe from he] at hturn
      exact Pipe.writeTurn_brokenPipe hturn
    | next n =>
      rw [hturn] at h
      have hlater := ih h he
      simp only [Objects.setPipe, Function.update_self] at hlater
      rw [← hsame.1]
      exact hlater
    | wait =>
      rw [hturn] at h
      cases h

theorem pipeWrite_brokenPipe (h : pipeWrite id src o = .ok r o')
    (he : r.err = some .brokenPipe) : (o.pipes (o.ends id).pipe).readers = 0 := by
  have hrun : pipeWrite id src o =
      (if (o.ends id).write = false then pure ⟨0, some .invalid, []⟩
        else if src.length = 0 then pure ⟨0, none, []⟩
        else pipeWriteLoop (o.ends id) src (src.length + 1) 0 : ObjM Transfer) o := rfl
  rw [hrun] at h
  split at h
  · cases h
    cases he
  split at h
  · cases h
    cases he
  · exact pipeWriteLoop_brokenPipe _ h he

/-! ## The counts -/

/-- In every state that processes can reach: the counts of every pipe are the numbers of
entries that hold its ends, no handle in a table is closed, and a read or a write of a
handle in a table, waiting or not, reports the end of file or `EPIPE` only when nobody
holds the other end. -/
theorem pipe_counts_exact (host : Host) {S : System} (h : S.Reach host) :
    (∀ p < S.objs.nextPipe, (S.objs.pipes p).readers = S.holders p false ∧
        (S.objs.pipes p).writers = S.holders p true) ∧
      ∀ fd id, ⟨fd, .pipe id⟩ ∈ S.entries →
        (S.objs.ends id).closed = false ∧
        (∀ len r o, (Handle.read host len (.pipe id) S.objs = .ok r o ∨
            pipeReadNonblocking id len S.objs = .ok r o) → r.err = some .eof →
          S.holders (S.objs.ends id).pipe true = 0) ∧
        (∀ data r o, (Handle.write host data (.pipe id) S.objs = .ok r o ∨
            pipeWriteNonblocking id data S.objs = .ok r o) → r.err = some .brokenPipe →
          S.holders (S.objs.ends id).pipe false = 0) := by
  have hc := h.counted
  have hcount : ∀ p < S.objs.nextPipe, (S.objs.pipes p).readers = S.holders p false ∧
      (S.objs.pipes p).writers = S.holders p true := by
    intro p hp
    rw [S.holders_eq, S.holders_eq]
    exact ⟨hc.count p hp false, hc.count p hp true⟩
  refine ⟨hcount, fun fd id hmem => ?_⟩
  have hheld : id ∈ S.held := by
    rw [S.held_eq_entries]
    exact List.mem_flatMap.mpr ⟨_, hmem, List.mem_cons_self⟩
  obtain ⟨_, hopen, hpipe⟩ := hc.live id hheld
  obtain ⟨hreaders, hwriters⟩ := hcount _ hpipe
  refine ⟨hopen, fun len r o hread he => ?_, fun data r o hwrite he => ?_⟩
  · have hzero : (S.objs.pipes (S.objs.ends id).pipe).writers = 0 :=
      hread.elim (pipeRead_eof · he) (pipeReadNonblocking_eof · he)
    rw [hwriters] at hzero
    exact Int.ofNat_eq_zero.mp hzero
  have hzero : (S.objs.pipes (S.objs.ends id).pipe).readers = 0 :=
    hwrite.elim (pipeWrite_brokenPipe · he) (pipeWriteNonblocking_brokenPipe · he)
  rw [hreaders] at hzero
  exact Int.ofNat_eq_zero.mp hzero

def single : System := ⟨[⟨CPU.new, Memory.new 4096, Kernel.new true none, Files.new⟩], Objects.new⟩

/-- It makes a pipe and forks, and the child closes its write end. -/
def forkedPipe : System :=
  ((single.act Host.silent 0 (.table (.pipe 0 0))).fork 0 2).act Host.silent 0 (.table (.close 1))

theorem forkedPipe_reach : forkedPipe.Reach Host.silent := by
  refine .act 0 _ (.fork 0 2 (.act 0 _ (.start (fun p hp => ?_) rfl rfl)))
  rw [mem_singleton.mp hp]

theorem pipe_counts_exact_forkedPipe :
    (forkedPipe.objs.pipes 0).readers = 2 ∧ (forkedPipe.objs.pipes 0).writers = 1 := by
  obtain ⟨hreaders, hwriters⟩ :=
    (pipe_counts_exact Host.silent forkedPipe_reach).1 0 (by decide)
  exact ⟨hreaders, hwriters⟩

end IshGo.Kernel
