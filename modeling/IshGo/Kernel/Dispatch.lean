/-
# `IshGo.Kernel.Dispatch` — do reads and writes agree with `handleForFD`?

`handleForFD` says which handle a number stands for.  `lseek` and `fstat64` ask it;
`read`, `readv`, `write` and `writev` decide for themselves.  Agreement of a call in a
state:

    no handle     the call returns `-EBADF` and changes nothing else
    a handle h    the call delivers to h
-/
import IshGo.Kernel.Delivery

namespace IshGo.Kernel

open I386 Lib Endpoint KState List

variable {h : Handle} {c : IOCall} {s : KState}
variable {fd : Int} {s' : KState}

variable (host : Host) (aware : Bool)

/-! ## Agreement -/

/-- Agreement of a call with `handleForFD`. -/
def IOCall.Agrees (host : Host) (s : KState) (c : IOCall) : Prop :=
  match s.handleForFD c.fd with
  | none => c.run host s = .ok () (s.ret ebadf)
  | some h => c.Delivers h s (after (c.run host) s)

namespace KState

/-- `writeBytes` takes the terminal and does not look at the table. -/
def Shadowed (s : KState) (fd : Int) : Prop := (fd = 1 ∨ fd = 2) ∧ s.kern.tty ≠ none

/-- A read of `fd`, which has a handle, reaches that handle: it has an entry, not of
another terminal than the kernel's, or it is the implicit terminal on `0`. -/
def ReadsOwn (s : KState) (fd : Int) : Prop :=
  match s.entry fd with
  | some (.tty t) => s.kern.tty = none ∨ s.kern.tty = some t
  | some _ => True
  | none => fd = 0

/-- A write to `fd`, which has a handle, reaches that handle: its entry is not shadowed
by another terminal, or is a pipe that is not waited for, or it is the implicit
terminal on `1` or `2`. -/
def WritesOwn (s : KState) (fd : Int) (aware : Bool) : Prop :=
  match s.entry fd with
  | some (.pipe _) => aware ∨ ¬ s.Shadowed fd
  | some (.tty t) => s.kern.tty = some t ∨ ¬ s.Shadowed fd
  | some _ => ¬ s.Shadowed fd
  | none => fd = 1 ∨ fd = 2

instance (s : KState) (fd : Int) : Decidable (s.Shadowed fd) :=
  inferInstanceAs (Decidable (_ ∧ _))

instance (s : KState) (fd : Int) : Decidable (s.ReadsOwn fd) := by
  rw [ReadsOwn]
  split <;> infer_instance

instance (s : KState) (fd : Int) (aware : Bool) : Decidable (s.WritesOwn fd aware) := by
  rw [WritesOwn]
  split <;> infer_instance

end KState

namespace IOCall

def Asks (s : KState) : IOCall → Prop
  | read _ _ _ => True
  | readv _ iov count => capCount count ≠ 0 ∧ iovec s.mem iov 0 ≠ none
  | write _ addr count => writeSegments s.mem addr count ≠ []
  | writev _ iov count => segments s.mem iov (capCount count) 0 ≠ []
  | lseek _ _ _ | fstat64 _ _ => False

def ReachesOwn (s : KState) : IOCall → Prop
  | read fd _ _ | readv fd _ _ => s.ReadsOwn fd
  | write fd _ _ => s.WritesOwn fd s.kern.schedulerAware
  | writev fd _ _ => s.WritesOwn fd false
  | lseek _ _ _ | fstat64 _ _ => True

def Refuses (s : KState) : IOCall → Prop
  | read _ _ _ | lseek _ _ _ | fstat64 _ _ => True
  | readv fd iov count => Asks s (readv fd iov count)
  | write _ _ _ | writev _ _ _ => False

def Settled (s : KState) (c : IOCall) : Prop :=
  if s.handleForFD c.fd = none then c.Refuses s else c.Asks s → c.ReachesOwn s

instance (s : KState) (c : IOCall) : Decidable (c.Asks s) := by
  cases c <;> simp only [Asks] <;> infer_instance

instance (s : KState) (c : IOCall) : Decidable (c.ReachesOwn s) := by
  cases c <;> simp only [ReachesOwn] <;> infer_instance

end IOCall

/-! ## The dispatches against `handleForFD` -/

theorem handleForFD_implicit_some (he : s.entry fd = none) (hh : s.handleForFD fd = some h) :
    s.files.closedFDs fd = false ∧ (0 ≤ fd ∧ fd ≤ 2) ∧ ∃ t, s.kern.tty = some t ∧ h = .tty t := by
  rw [handleForFD_implicit he] at hh
  split at hh
  · cases hh
  split at hh
  · rename_i hc hr
    obtain ⟨t, ht, rfl⟩ := Option.map_eq_some_iff.mp hh
    exact ⟨Bool.eq_false_iff.mpr hc, hr, t, ht, rfl⟩
  · cases hh

theorem readSource_of_absent (h : s.handleForFD fd = none) : s.readSource fd aware = none := by
  cases he : s.entry fd with
  | some f =>
    rw [handleForFD_entry he] at h
    cases h
  | none =>
    rw [handleForFD_implicit he] at h
    simp only [readSource, he]
    split
    · rename_i hfd
      obtain ⟨rfl, hclosed⟩ := hfd
      simp only [hclosed, Bool.false_eq_true, if_false, le_refl, Int.reduceLE, and_self, if_true,
        Option.map_eq_none_iff] at h
      rw [h]
      rfl
    · rfl

theorem target_readEntry (f : Handle) : (s.readEntry aware f).target =
      match f with
      | .tty t => .tty (s.kern.tty.getD t)
      | f => f := by
  cases f with
  | tty t =>
    rw [readEntry]
    cases s.kern.tty with
    | none => rfl
    | some tty => rfl
  | pipe id =>
    cases aware with
    | true => rfl
    | false => rfl
  | _ => rfl

/-- A read reaches the handle of `fd` exactly when `ReadsOwn` says so. -/
theorem readSource_target (hh : s.handleForFD fd = some h) :
    (s.readSource fd aware).map target = some h ↔ s.ReadsOwn fd := by
  cases he : s.entry fd with
  | some f =>
    rw [handleForFD_entry he] at hh
    cases hh
    simp only [readSource, he, Option.map_some, target_readEntry, KState.ReadsOwn]
    cases h with
    | tty t => cases s.kern.tty <;> simp
    | _ => simp
  | none =>
    obtain ⟨hclosed, _, t, ht, rfl⟩ := handleForFD_implicit_some he hh
    simp only [readSource, he, hclosed, ht, KState.ReadsOwn]
    by_cases hfd : fd = 0
    · simp [hfd, target]
    · simp [hfd]

theorem writeTarget_of_shadowed {t : Nat} (hfd : fd = 1 ∨ fd = 2)
    (ht : s.kern.tty = some t) : s.writeTarget fd = some (.terminal t) := by
  simp only [writeTarget, ht, if_pos hfd]

theorem writeTarget_of_not_shadowed (h : ¬ s.Shadowed fd) : s.writeTarget fd = (s.entry fd).map .handle := by
  rw [writeTarget]
  cases ht : s.kern.tty with
  | none => rfl
  | some t =>
    have hfd : ¬ (fd = 1 ∨ fd = 2) := fun hfd => h ⟨hfd, by simp [ht]⟩
    simp only [if_neg hfd]
    rfl

theorem writeTarget_target (hh : s.handleForFD fd = some h) :
    (s.writeTarget fd).map target = some h ↔ s.WritesOwn fd false := by
  by_cases hs : s.Shadowed fd
  · obtain ⟨hfd, ht⟩ := hs
    obtain ⟨t, ht⟩ := Option.ne_none_iff_exists'.mp ht
    rw [writeTarget_of_shadowed hfd ht]
    have hsh : s.Shadowed fd := ⟨hfd, by simp [ht]⟩
    cases he : s.entry fd with
    | some f =>
      rw [handleForFD_entry he] at hh
      cases hh
      simp only [KState.WritesOwn, he, hsh, ht, Option.map_some, target]
      cases h <;> simp
    | none =>
      obtain ⟨_, _, t', ht', rfl⟩ := handleForFD_implicit_some he hh
      rw [ht] at ht'
      cases ht'
      simp only [KState.WritesOwn, he, hfd, Option.map_some, target]
  · rw [writeTarget_of_not_shadowed hs]
    cases he : s.entry fd with
    | some f =>
      rw [handleForFD_entry he] at hh
      cases hh
      simp only [KState.WritesOwn, he, hs, Option.map_some, target]
      cases h <;> simp
    | none =>
      obtain ⟨_, _, t, ht, rfl⟩ := handleForFD_implicit_some he hh
      have hfd : ¬ (fd = 1 ∨ fd = 2) := fun hfd => hs ⟨hfd, by simp [ht]⟩
      simp [KState.WritesOwn, he, hfd]

theorem writeSource_of_blocking
    (h : ∀ id, s.entry fd = some (.pipe id) → s.kern.schedulerAware = false) :
    s.writeSource fd = s.writeTarget fd ∧
      (s.WritesOwn fd s.kern.schedulerAware ↔ s.WritesOwn fd false) := by
  simp only [writeSource, nonblockingTarget, KState.WritesOwn]
  cases he : s.entry fd with
  | none => simp
  | some f =>
    cases f with
    | pipe id => simp [h id he]
    | _ => simp

theorem writeSource_target (hh : s.handleForFD fd = some h) :
    (s.writeSource fd).map target = some h ↔ s.WritesOwn fd s.kern.schedulerAware := by
  by_cases hp : ∀ id, s.entry fd = some (.pipe id) → s.kern.schedulerAware = false
  · obtain ⟨hsrc, hown⟩ := writeSource_of_blocking hp
    rw [hsrc, hown]
    exact writeTarget_target hh
  -- a pipe that is not waited for
  simp only [not_forall, Bool.not_eq_false] at hp
  obtain ⟨id, he, ha⟩ := hp
  rw [handleForFD_entry he] at hh
  cases hh
  simp [writeSource, nonblockingTarget, KState.WritesOwn, he, ha, target]

/-! ## Deliveries -/

theorem ret_injective {v w : U32} (h : s.ret v = s.ret w) : v = w := by
  have hr : (s.ret v).cpu.regs EAX = (s.ret w).cpu.regs EAX := by rw [h]
  simpa [KState.ret, KState.setReg] using hr

theorem ReadsAll.head {iov : U32} {n i : Nat} {m m' : Memory} {cs : List HandleCall}
    (hr : ReadsAll h iov n i m m' cs) (hn : n ≠ 0) (hv : iovec m iov i ≠ none) :
    ∃ len r cs', cs = .read h len r :: cs' := by
  cases hr with
  | done => exact absurd rfl hn
  | unreadable hnone => exact absurd hnone hv
  | stop | next => exact ⟨_, _, _, rfl⟩

theorem WritesAll.head {segs : List (List U8)} {cs : List HandleCall} (hw : WritesAll h segs cs)
    (hs : segs ≠ []) : ∃ data r cs', cs = .write h data r :: cs' := by
  cases hw with
  | done => exact absurd rfl hs
  | stop | next => exact ⟨_, _, _, rfl⟩

namespace IOCall

theorem Delivers.first (hd : c.Delivers h s s') (ha : c.Asks s) :
    ∃ (first : HandleCall) (cs : List HandleCall), s'.calls = cs.reverse ++ first :: s.calls ∧
      ((∃ len r, first = .read h len r) ∨ ∃ data r, first = .write h data r) := by
  cases c with
  | read fd addr count =>
    obtain ⟨r, hcalls, _⟩ := hd
    exact ⟨_, [], hcalls, .inl ⟨_, r, rfl⟩⟩
  | readv fd iov count =>
    obtain ⟨cs, hcalls, hr⟩ := hd
    obtain ⟨len, r, cs', rfl⟩ := hr.head ha.1 ha.2
    exact ⟨_, cs', by rw [hcalls, reverse_cons, append_assoc]; rfl, .inl ⟨len, r, rfl⟩⟩
  | write fd addr count =>
    obtain ⟨cs, hcalls, hw⟩ := hd
    obtain ⟨data, r, cs', rfl⟩ := hw.head ha
    exact ⟨_, cs', by rw [hcalls, reverse_cons, append_assoc]; rfl, .inr ⟨data, r, rfl⟩⟩
  | writev fd iov count =>
    obtain ⟨cs, hcalls, hw⟩ := hd
    obtain ⟨data, r, cs', rfl⟩ := hw.head ha
    exact ⟨_, cs', by rw [hcalls, reverse_cons, append_assoc]; rfl, .inr ⟨data, r, rfl⟩⟩
  | lseek | fstat64 => exact ha.elim

theorem Delivers.unique {h' : Handle} (hd : c.Delivers h s s')
    (hd' : c.Delivers h' s s') (ha : c.Asks s) : h = h' := by
  obtain ⟨first, cs, hcalls, hfirst⟩ := hd.first ha
  obtain ⟨first', cs', hcalls', hfirst'⟩ := hd'.first ha
  have heq : (cs.reverse ++ [first]) ++ s.calls = (cs'.reverse ++ [first']) ++ s.calls := by
    rw [append_assoc, append_assoc]
    exact hcalls.symm.trans hcalls'
  have hlast := append_inj_right' (append_cancel_right heq) rfl
  rcases hfirst with ⟨len, r, rfl⟩ | ⟨data, r, rfl⟩ <;>
    rcases hfirst' with ⟨len', r', rfl⟩ | ⟨data', r', rfl⟩ <;>
    simp_all

theorem Delivers.grows (hd : c.Delivers h s s') (ha : c.Asks s) : s'.calls ≠ s.calls := by
  obtain ⟨first, cs, hcalls, _⟩ := hd.first ha
  intro heq
  have := congrArg length (hcalls.symm.trans heq)
  simp only [length_append, length_reverse, length_cons] at this
  omega

def endpoint (s : KState) : IOCall → Option Endpoint
  | read fd _ _ => s.readSource fd s.kern.schedulerAware
  | readv fd _ _ => s.readSource fd false
  | write fd _ _ => s.writeSource fd
  | writev fd _ _ => s.writeTarget fd
  | lseek fd _ _ | fstat64 fd _ => (s.handleForFD fd).map .handle

theorem endpoint_target (hh : s.handleForFD c.fd = some h) (ha : c.Asks s) :
    (c.endpoint s).map target = some h ↔ c.ReachesOwn s := by
  cases c with
  | read | readv => exact readSource_target _ hh
  | write fd addr count => exact writeSource_target hh
  | writev fd iov count => exact writeTarget_target hh
  | lseek | fstat64 => exact ha.elim

theorem run_delivers {e : Endpoint} (ha : c.Asks s) (he : c.endpoint s = some e) :
    c.Delivers e.target s (after (c.run host) s) := by
  cases c with
  | read fd addr count => exact handleRead_delivers host addr count he
  | readv fd iov count => exact handleReadv_delivers host iov count he
  | write fd addr count => exact handleWrite_delivers host addr count he
  | writev fd iov count => exact handleWritev_delivers host iov count he
  | lseek | fstat64 => exact ha.elim

theorem run_absent_calls (ha : c.Asks s) (he : c.endpoint s = none) : (after (c.run host) s).calls = s.calls := by
  cases c with
  | read fd addr count => rw [run, after_ok (handleRead_absent host addr count he)]; rfl
  | readv fd iov count => rw [run, after_ok (handleReadv_absent host he)]; rfl
  | write fd addr count => rw [run, after_ok (handleWrite_absent host addr count he)]; rfl
  | writev fd iov count => rw [run, after_ok (handleWritev_refused host (.inl he))]; rfl
  | lseek | fstat64 => exact ha.elim

/-- A call that does not get as far as a handle owes nothing to any. -/
theorem run_idle_delivers (ha : ¬ c.Asks s) (h : Handle) : c.Delivers h s (after (c.run host) s) := by
  cases c with
  | read fd addr count => exact absurd trivial ha
  | readv fd iov count =>
    rw [run, after_ok (handleReadv_idle host fd ha)]
    refine ⟨[], rfl, ?_⟩
    cases hn : capCount count with
    | zero => exact .done
    | succ n =>
      refine .unreadable ?_
      by_contra hv
      exact ha ⟨by rw [hn]; exact Nat.succ_ne_zero n, hv⟩
  | write fd addr count =>
    have hs : writeSegments s.mem addr count = [] := not_not.mp ha
    rw [run, after_ok (handleWrite_unreadable host fd hs)]
    exact ⟨[], rfl, hs ▸ .done⟩
  | writev fd iov count =>
    have hs : segments s.mem iov (capCount count) 0 = [] := not_not.mp ha
    rw [run, after_ok (handleWritev_refused host (.inr hs))]
    exact ⟨[], rfl, hs ▸ .done⟩
  | lseek fd offset whence => exact lseek_quiet host fd offset whence s
  | fstat64 fd addr => exact statFD_quiet host fd addr s

theorem delivers_iff (hh : s.handleForFD c.fd = some h) :
    c.Delivers h s (after (c.run host) s) ↔ (c.Asks s → c.ReachesOwn s) := by
  by_cases ha : c.Asks s
  · rw [← endpoint_target hh ha]
    cases he : c.endpoint s with
    | none =>
      constructor
      · intro hd
        exact absurd (run_absent_calls host ha he) (hd.grows ha)
      · intro hown
        cases hown ha
    | some e =>
      have hd := run_delivers host ha he
      constructor
      · intro hd' _
        exact congrArg some (hd.unique hd' ha)
      · intro hown
        cases hown ha
        exact hd
  · exact ⟨fun _ ha' => absurd ha' ha, fun _ => run_idle_delivers host ha h⟩

theorem refuses_iff (hh : s.handleForFD c.fd = none) : c.run host s = .ok () (s.ret ebadf) ↔ c.Refuses s := by
  -- a return value other than `-EBADF`
  have hother : ∀ {v : U32}, v ≠ ebadf → c.run host s = .ok () (s.ret v) →
      c.run host s ≠ .ok () (s.ret ebadf) := by
    intro v hv hrun heq
    rw [hrun] at heq
    injection heq with _ hret
    exact hv (ret_injective hret)
  -- a call on some handle
  have hcall : ∀ {h : Handle}, c.Asks s → c.Delivers h s (after (c.run host) s) →
      c.run host s ≠ .ok () (s.ret ebadf) := by
    intro h ha hd heq
    rw [after_ok heq] at hd
    exact hd.grows ha rfl
  cases c with
  | read fd addr count =>
    exact ⟨fun _ => trivial, fun _ => handleRead_absent host addr count (readSource_of_absent _ hh)⟩
  | readv fd iov count =>
    by_cases ha : (readv fd iov count).Asks s
    · refine ⟨fun _ => ha, fun _ => ?_⟩
      refine (handleReadv_absent host (readSource_of_absent _ hh)).trans ?_
      rw [if_neg ha.1, if_neg ha.2]
    · refine ⟨fun heq => ?_, fun ha' => absurd ha' ha⟩
      exact absurd heq (hother (zero_or_efault_ne_ebadf _) (handleReadv_idle host fd ha))
  | write fd addr count =>
    refine ⟨fun heq => ?_, False.elim⟩
    cases he : s.writeSource fd with
    | none => exact hother (by decide) (handleWrite_absent host addr count he) heq
    | some e =>
      by_cases ha : (write fd addr count).Asks s
      · exact hcall ha (handleWrite_delivers host addr count he) heq
      · exact hother (by decide) (handleWrite_unreadable host fd (not_not.mp ha)) heq
  | writev fd iov count =>
    refine ⟨fun heq => ?_, False.elim⟩
    cases he : s.writeTarget fd with
    | none => exact hother (zero_or_efault_ne_ebadf _) (handleWritev_refused host (.inl he)) heq
    | some e =>
      by_cases ha : (writev fd iov count).Asks s
      · exact hcall ha (handleWritev_delivers host iov count he) heq
      · exact hother (zero_or_efault_ne_ebadf _) (handleWritev_refused host (.inr (not_not.mp ha))) heq
  | lseek fd offset whence => exact ⟨fun _ => trivial, fun _ => lseek_absent host offset whence hh⟩
  | fstat64 fd addr => exact ⟨fun _ => trivial, fun _ => statFD_absent host addr hh⟩

/-- For every state and every call: the call agrees with `handleForFD` exactly in the
states that `Settled` describes. -/
theorem agrees_iff_settled (host : Host) (s : KState) (c : IOCall) :
    c.Agrees host s ↔ c.Settled s := by
  rw [Agrees, Settled]
  cases hh : s.handleForFD c.fd with
  | none =>
    exact refuses_iff host hh
  | some h =>
    exact delivers_iff host hh

/-- Standard output redirected to `/dev/null`, with a terminal. -/
def redirected : KState :=
  { new true (some 0) CPU.new (Memory.new 4096) Objects.new with
    files := Files.new.install 1 .null }

/-- A byte written to the redirected descriptor goes to the terminal. -/
theorem redirected_write_reaches_terminal :
    redirected.handleForFD 1 = some .null ∧
      (after ((write 1 0 1).run Host.silent) redirected).calls =
        [.write (.tty 0) [0] (some ⟨1, none, [0]⟩)] ∧
      ¬ (write 1 0 1).Agrees Host.silent redirected := by
  refine ⟨by decide, by decide, ?_⟩
  show ¬ (write 1 0 1).Delivers .null redirected _
  rw [delivers_iff Host.silent (by decide)]
  decide

end IOCall

end IshGo.Kernel
