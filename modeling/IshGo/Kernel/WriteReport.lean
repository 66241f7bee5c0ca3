/-
# `IshGo.Kernel.WriteReport` — does a write on a pipe say what it has written?

A guest that gets an error from `write` or `writev` takes it that nothing was written, and tries
again.  `pipeHandle.Write` can return a count AND an error: a pipe that does not wait was nearly
full, or the last reader went away between two turns.  `handleWrite` then returns the error, and
`handleWritev` does so if the write was the first that moved anything.

`write_reports_iff` says when that happens.  If nobody else acts on the pipe during the call it is
an equivalence, with a condition on the pipe, the end and the memory before (`CutsShort`).  If
others act, the call is right on an end that waits as long as they leave the pipe a reader
(`Steady`); an end with `O_NONBLOCK` among others is not dealt with, since there the others decide
how much room each turn finds.
-/
import IshGo.Kernel.Among
import IshGo.Kernel.Blocked
import IshGo.Lib.Align

namespace IshGo.Kernel

open I386 Lib Host List

variable {data : List U8} {k : Nat} {r : Transfer} {rs : List Transfer} {v : U32}
variable {fd : Int} {Rely : Pipe → Pipe → Prop} {w : Writer} {id : Nat} {s t : KState}
    {new : List HandleCall}
  {p : Pipe}
variable {Q : Unit → KState → Prop}

/-! ## What is to be reported -/

/-- The transfer of a write on `h`. -/
def HandleCall.wrote (h : Handle) : HandleCall → Option Transfer
  | .write h' _ r => if h' = h then r else none
  | .read _ _ _ => none

/-- The transfers of the writes on `h`, in order. -/
def wroteOn (h : Handle) (cs : List HandleCall) : List Transfer := cs.filterMap (HandleCall.wrote h)

def movedBytes (rs : List Transfer) : List U8 := rs.flatMap Transfer.bytes

/-- The value is the number of the bytes, if there are any; an error says that there are none. -/
def Reports (bytes : List U8) (v : U32) : Prop :=
  (bytes ≠ [] → v.toInt = bytes.length) ∧ (v.toInt < 0 → bytes = [])

/-- A write has failed after it had appended bytes, and these are all that the call has appended,
the `k` before these transfers included. -/
def CutShort (k : Nat) (rs : List Transfer) : Prop :=
  ∃ r ∈ rs, r.err ≠ none ∧ r.bytes ≠ [] ∧ r.bytes.length = k + (movedBytes rs).length

theorem cutShort_nil (k : Nat) : ¬ CutShort k [] := by
  rintro ⟨r, hr, -⟩
  exact absurd hr not_mem_nil

theorem cutShort_one : CutShort k [r] ↔ r.err ≠ none ∧ r.bytes ≠ [] ∧ k = 0 := by
  have hbytes : movedBytes [r] = r.bytes := append_nil _
  unfold CutShort
  rw [hbytes]
  constructor
  · rintro ⟨q, hq, herr, hne, heq⟩
    cases mem_singleton.mp hq
    exact ⟨herr, hne, by omega⟩
  · rintro ⟨herr, hne, rfl⟩
    exact ⟨r, mem_singleton_self r, herr, hne, (Nat.zero_add _).symm⟩

theorem not_cutShort_of_pos (hk : 0 < k) : ¬ CutShort k rs := by
  rintro ⟨r, hr, -, -, hlen⟩
  obtain ⟨pre, post, rfl⟩ := append_of_mem hr
  simp only [movedBytes, flatMap_append, flatMap_cons, length_append] at hlen
  omega

/-- What a call returns that had appended `k` bytes before these transfers. -/
def Accounted (k : Nat) (rs : List Transfer) (v : U32) : Prop :=
  k + (movedBytes rs).length < 2 ^ 31 →
    (CutShort k rs ∧ v.toInt < 0) ∨
      (¬ CutShort k rs ∧ (v.toInt = (k + (movedBytes rs).length : Nat) ∨
        (k + (movedBytes rs).length = 0 ∧ v.toInt < 0)))

theorem toInt_ofNat_of_lt {m : Nat} (h : m < 2 ^ 31) : (BitVec.ofNat 32 m).toInt = m := by
  have hval : (BitVec.ofNat 32 m).toNat = m := toNat_ofNat_of_lt (by omega)
  rw [BitVec.toInt_eq_toNat_of_lt (by omega), hval]

theorem toInt_lt (v : U32) : v.toInt < 2147483648 := by
  have h := @BitVec.toInt_lt 32 v
  exact h

/-- The value and the bytes agree exactly if no write was cut short; and the number of the bytes
has to be one that can be returned. -/
theorem Accounted.reports_iff (h : Accounted 0 rs v) :
    Reports (movedBytes rs) v ↔ (movedBytes rs).length < 2 ^ 31 ∧ ¬ CutShort 0 rs := by
  rw [Accounted, Nat.zero_add] at h
  have hlt := toInt_lt v
  by_cases hlen : (movedBytes rs).length < 2 ^ 31
  · rw [and_iff_right hlen]
    rcases h hlen with ⟨hcut, hneg⟩ | ⟨hwhole, hvalue | ⟨hzero, -⟩⟩
    · refine iff_of_false (fun hreports => ?_) (not_not.mpr hcut)
      obtain ⟨r, -, -, hne, heq⟩ := hcut
      rw [hreports.2 hneg] at heq
      exact hne (eq_nil_of_length_eq_zero (by simpa using heq))
    · refine iff_of_true ⟨fun _ => hvalue, fun hneg => ?_⟩ hwhole
      omega
    · have hnil := eq_nil_of_length_eq_zero hzero
      exact iff_of_true ⟨fun hne => absurd hnil hne, fun _ => hnil⟩ hwhole
  · refine iff_of_false (fun hreports => ?_) (fun hand => hlen hand.1)
    have hne : movedBytes rs ≠ [] := by
      intro hnil
      rw [hnil] at hlen
      exact hlen (by decide)
    have hvalue := hreports.1 hne
    omega

theorem movedBytes_cons (r : Transfer) (rs : List Transfer) :
    movedBytes (r :: rs) = r.bytes ++ movedBytes rs := rfl

/-- A transfer without an error, and what comes after it. -/
theorem cutShort_cons (hr : r.err = none) :
    CutShort k (r :: rs) ↔ CutShort (k + r.bytes.length) rs := by
  have hlen : k + (movedBytes (r :: rs)).length = k + r.bytes.length + (movedBytes rs).length := by
    rw [movedBytes_cons, length_append, Nat.add_assoc]
  unfold CutShort
  rw [hlen]
  constructor
  · rintro ⟨q, hq, herr, hne, heq⟩
    rcases mem_cons.mp hq with rfl | hq
    · exact absurd hr herr
    · exact ⟨q, hq, herr, hne, heq⟩
  · rintro ⟨q, hq, herr, hne, heq⟩
    exact ⟨q, mem_cons_of_mem r hq, herr, hne, heq⟩

theorem Accounted.cons (hr : r.err = none)
    (h : Accounted (k + r.bytes.length) rs v) : Accounted k (r :: rs) v := by
  unfold Accounted at h ⊢
  rw [cutShort_cons hr, movedBytes_cons, length_append, ← Nat.add_assoc]
  exact h

theorem accounted_nil (h : k < 2 ^ 31 → v.toInt = k ∨ (k = 0 ∧ v.toInt < 0)) :
    Accounted k [] v := by
  intro hk
  exact .inr ⟨cutShort_nil k, h hk⟩

theorem accounted_last (hcut : r.err ≠ none → k = 0 → v.toInt < 0)
    (hok : k + r.bytes.length < 2 ^ 31 → r.err = none ∨ k ≠ 0 →
      v.toInt = (k + r.bytes.length : Nat)) :
    Accounted k [r] v := by
  have hbytes : movedBytes [r] = r.bytes := append_nil _
  unfold Accounted
  rw [hbytes]
  intro hlen
  rw [cutShort_one]
  by_cases hfail : r.err ≠ none ∧ k = 0
  · obtain ⟨herr, rfl⟩ := hfail
    by_cases hne : r.bytes = []
    · refine .inr ⟨fun h => h.2.1 hne, .inr ⟨?_, hcut herr rfl⟩⟩
      rw [hne]
      rfl
    · exact .inl ⟨⟨herr, hne, rfl⟩, hcut herr rfl⟩
  · refine .inr ⟨fun h => hfail ⟨h.1, h.2.2⟩, .inl (hok hlen ?_)⟩
    by_cases herr : r.err = none
    · exact .inl herr
    · exact .inr fun hk => hfail ⟨herr, hk⟩

/-! ## Before the call -/

/-- The first segment that is not empty would be cut short. -/
def FirstCuts (o : Objects) (id : Nat) (segs : List (List U8)) : Prop :=
  ∃ data, segs.find? (· ≠ []) = some data ∧ (o.ends id).Cuts (o.pipeOf id) data

/-- What a call hands to `Write` of a pipe, as long as it can be read.  With a scheduler, `write`
uses `WriteNonblocking`. -/
def IOCall.offered (s : KState) : IOCall → List (List U8)
  | write _ addr count => if s.kern.schedulerAware then [] else writeSegments s.mem addr count
  | writev _ iov count => segments s.mem iov (capCount count) 0
  | read _ _ _ | readv _ _ _ | lseek _ _ _ | fstat64 _ _ => []

/-- The call goes to the pipe, by a write end with `O_NONBLOCK`; the pipe has a reader, and room for a
part of the first bytes only. -/
def IOCall.CutsShort (c : IOCall) (s : KState) (id : Nat) : Prop :=
  s.writeTarget c.fd = some (.handle (.pipe id)) ∧ FirstCuts s.objs id (c.offered s)

/-- The end waits, the pipe has a reader, and the others leave it one. -/
structure Steady (Rely : Pipe → Pipe → Prop) (id : Nat) (s : KState) : Prop where
  kept : ∀ p q, Rely p q → p.readers ≠ 0 → q.readers ≠ 0
  waits : (s.objs.ends id).nonblock = false
  readers : (s.objs.pipeOf id).readers ≠ 0

section FirstCuts
variable {o : Objects} {segs : List (List U8)}

theorem not_firstCuts_nil : ¬ FirstCuts o id [] := by
  rintro ⟨data, hfind, -⟩
  cases hfind

theorem firstCuts_empty : FirstCuts o id ([] :: segs) ↔ FirstCuts o id segs := by
  unfold FirstCuts
  rw [find?_cons_of_neg (by simp)]

theorem firstCuts_cons (hdata : data ≠ []) :
    FirstCuts o id (data :: segs) ↔ (o.ends id).Cuts (o.pipeOf id) data := by
  unfold FirstCuts
  rw [find?_cons_of_pos (by simpa using hdata)]
  exact ⟨fun ⟨_, heq, hcuts⟩ => Option.some.inj heq ▸ hcuts, fun hcuts => ⟨data, rfl, hcuts⟩⟩

end FirstCuts

/-! ## One write -/

/-- A write on a pipe: recorded, counted, and, alone, appended. -/
structure WroteOne (Rely : Pipe → Pipe → Prop) (id : Nat) (data : List U8) (r : Transfer)
    (s t : KState) : Prop where
  wrote : Wrote (.write (.pipe id) data (some r)) s t
  record : t.kern.blockedPipe = s.kern.blockedPipe
  count : r.count = r.bytes.length
  data : Alone Rely → (t.objs.pipeOf id).data = (s.objs.pipeOf id).data ++ r.bytes
  room : Alone Rely → r.bytes.length ≤ pipeCapacity - (s.objs.pipeOf id).data.length

/-- A `Write` of the handle. -/
structure WroteHandle (Rely : Pipe → Pipe → Prop) (id : Nat) (src : List U8) (r : Transfer)
    (s t : KState) : Prop extends WroteOne Rely id src r s t where
  ends : t.objs.ends = s.objs.ends
  part : Alone Rely → WrotePart (s.objs.ends id) (s.objs.pipeOf id) src r
  same : Alone Rely → src = [] → t.objs.pipeOf id = s.objs.pipeOf id
  steady : Steady Rely id s → (r.err ≠ none → r.bytes = []) ∧ (t.objs.pipeOf id).readers ≠ 0

theorem WritesPipes.handle_one (hw : WritesPipes Rely w)
    (h : w (.handle (.pipe id)) data s = .ok r t) :
    WroteHandle Rely id data r s t := by
  have hcalled := hw.called h
  have hrecord : t.kern.blockedPipe = s.kern.blockedPipe := by rw [hcalled.kern]
  rcases hw.handle h with ⟨hwhy, hcount, hbytes, hrely⟩ | ⟨hwrite, hdata, hrun⟩
  · -- nothing is done
    have hpart : WrotePart (s.objs.ends id) (s.objs.pipeOf id) data r := by
      refine ⟨?_, fun herr => ?_, fun herr => iff_of_false (absurd hbytes) fun hc => ?_,
        fun hnil herr => ?_⟩
      · rw [hbytes]
        exact Nat.zero_le _
      · rw [hbytes, (hwhy.resolve_left fun hno => hno.2 herr).1]
      all_goals have hno := (hwhy.resolve_right fun hno => herr hno.2).1
      · exact absurd (hno.symm.trans hc.1) Bool.false_ne_true
      · exact hno
    refine ⟨⟨hcalled.wrote, hrecord, ?_, fun halone => ?_, fun _ => hpart.room⟩, hw.ends h,
      fun _ => hpart, fun halone _ => halone _ _ hrely,
      fun hs => ⟨fun _ => hbytes, hs.kept _ _ hrely hs.readers⟩⟩
    · rw [hcount, hbytes]
      rfl
    · rw [hbytes, halone _ _ hrely, append_nil]
  · refine ⟨⟨hcalled.wrote, hrecord, ?_, hrun.appends,
      fun halone => (hrun.part halone hwrite hdata).room⟩,
      hw.ends h, fun halone => hrun.part halone hwrite hdata, fun _ hnil => absurd hnil hdata, fun hs => ?_⟩
    · rw [hrun.count_eq, Nat.zero_add]
    · rw [hs.waits] at hrun
      obtain ⟨herr, hreaders⟩ := hrun.steady hs.kept hs.readers
      exact ⟨fun hne => absurd herr hne, hreaders⟩

/-- Without waiting, an error comes without bytes. -/
theorem WritesPipes.nonblocking_one (hw : WritesPipes Rely w)
    (h : w (.nonblocking id) data s = .ok r t) :
    WroteOne Rely id data r s t ∧ r.count ≤ pipeCapacity ∧ (r.err ≠ none → r.bytes = []) := by
  have hcalled := hw.called h
  rcases hw.nonblocking h with ⟨hcount, hbytes, hrely⟩ | ⟨q, hrely, hrun⟩
  · refine ⟨⟨hcalled.wrote, by rw [hcalled.kern], ?_, fun halone => ?_, fun _ => ?_⟩, ?_,
      fun _ => hbytes⟩
    · rw [hcount, hbytes]
      rfl
    · rw [hbytes, halone _ _ hrely, append_nil]
    · rw [hbytes]
      exact Nat.zero_le _
    · rw [hcount]
      exact Nat.zero_le _
  · obtain ⟨hdata, hcount, hcap, herr⟩ := Pipe.writeNonblocking_appends hrun
    refine ⟨⟨hcalled.wrote, by rw [hcalled.kern], hcount, fun halone => ?_, fun halone => ?_⟩,
      Nat.le_trans hcap (Nat.sub_le ..), herr⟩
    · rw [hdata, halone _ _ hrely]
    · rw [← hcount, ← halone _ _ hrely]
      exact hcap

theorem queueSignal_blockedPipe (k : Kernel) (signal : Nat) :
    (k.queueSignal signal).blockedPipe = k.blockedPipe := by
  rw [Kernel.queueSignal]
  split <;> rfl

theorem WroteOne.queueSignal (h : WroteOne Rely id data r s t) (signal : Nat) :
    WroteOne Rely id data r s { t with kern := t.kern.queueSignal signal } :=
  ⟨h.wrote.queueSignal signal, (queueSignal_blockedPipe _ _).trans h.record, h.count, h.data,
    h.room⟩

theorem WroteHandle.queueSignal (h : WroteHandle Rely id data r s t) (signal : Nat) :
    WroteHandle Rely id data r s { t with kern := t.kern.queueSignal signal } :=
  ⟨h.toWroteOne.queueSignal signal, h.ends, h.part, h.same, h.steady⟩

/-- What is cut short is what would be: the write has failed, or it was the last. -/
theorem WroteHandle.cutShort_iff (h : WroteHandle Rely id data r s t) (halone : Alone Rely)
    {rest : List (List U8)} (hend : r.err ≠ none ∨ rest = []) :
    CutShort 0 [r] ↔ FirstCuts s.objs id (data :: rest) := by
  have hpart := h.part halone
  rw [cutShort_one]
  by_cases hdata : data = []
  · subst hdata
    rw [firstCuts_empty]
    have hnone : ¬ FirstCuts s.objs id rest := by
      rcases hend with herr | rfl
      · rintro ⟨_, _, hcuts⟩
        exact absurd ((hpart.wrongEnd rfl herr).symm.trans hcuts.1) Bool.false_ne_true
      · exact not_firstCuts_nil
    refine iff_of_false (fun hcut => ?_) hnone
    have hlt := ((hpart.cut hcut.1).mp hcut.2.1).2.2.2
    exact absurd hlt.2 (Nat.not_lt.mpr (Nat.le_of_lt hlt.1))
  rw [firstCuts_cons hdata]
  by_cases herr : r.err = none
  · refine iff_of_false (fun hcut => hcut.1 herr) fun hcuts => ?_
    have hroom := hpart.room
    rw [hpart.whole herr] at hroom
    have hlt := hcuts.2.2.2
    omega
  · rw [and_iff_right herr, and_iff_left rfl]
    exact hpart.cut herr

/-- `writeBytes` on a pipe. -/
theorem ensures_writeBytesBy (hw : WritesPipes Rely w)
    (htarget : s.writeTarget fd = some (.handle (.pipe id))) :
    Ensures (writeBytesBy w fd data) s fun r t => WroteHandle Rely id data r s t := by
  unfold writeBytesBy
  rw [ensures_bind, ensures_get, htarget, ensures_bind]
  intro r t hr
  have hone := hw.handle_one hr
  split
  · rw [ensures_bind]
    intro _ u hu
    cases hu
    exact ensures_pure.mpr (hone.queueSignal 13)
  · exact ensures_pure.mpr hone

/-! ## A whole call -/

/-- From `s` to `t` a call, or the rest of one that had appended `k` bytes, with these segments to
write, has made these writes and has come to its end. -/
structure WriteRun (Rely : Pipe → Pipe → Prop) (id k : Nat) (segs : List (List U8)) (s t : KState)
    (new : List HandleCall) : Prop where
  calls : t.calls = new.reverse ++ s.calls
  record : t.kern.blockedPipe = s.kern.blockedPipe
  value : Accounted k (wroteOn (.pipe id) new) (t.cpu.regs EAX)
  data : Alone Rely →
    (t.objs.pipeOf id).data = (s.objs.pipeOf id).data ++ movedBytes (wroteOn (.pipe id) new)
  room : Alone Rely → (movedBytes (wroteOn (.pipe id) new)).length ≤
    pipeCapacity - (s.objs.pipeOf id).data.length
  first : Alone Rely → k = 0 →
    (CutShort 0 (wroteOn (.pipe id) new) ↔ FirstCuts s.objs id segs)
  steady : Steady Rely id s → ¬ CutShort k (wroteOn (.pipe id) new)

theorem wroteOn_self (id : Nat) (data : List U8) (r : Transfer) (cs : List HandleCall) :
    wroteOn (.pipe id) (.write (.pipe id) data (some r) :: cs) = r :: wroteOn (.pipe id) cs :=
  filterMap_cons_some (if_pos rfl)

section Run
variable {u : KState} {segs : List (List U8)}

/-- The end without another write. -/
theorem WriteRun.ret (h : k < 2 ^ 31 → v.toInt = k ∨ (k = 0 ∧ v.toInt < 0)) :
    WriteRun Rely id k [] s (s.ret v) [] :=
  ⟨rfl, rfl, accounted_nil h, fun _ => (append_nil _).symm, fun _ => Nat.zero_le _,
    fun _ _ => iff_of_false (cutShort_nil 0) not_firstCuts_nil, fun _ => cutShort_nil k⟩

theorem WroteOne.last (h : WroteOne Rely id data r s t)
    (hfirst : Alone Rely → k = 0 → (CutShort 0 [r] ↔ FirstCuts s.objs id segs))
    (hsteady : Steady Rely id s → r.err ≠ none → r.bytes = [])
    (hcut : r.err ≠ none → k = 0 → v.toInt < 0)
    (hok : k + r.bytes.length < 2 ^ 31 → r.err = none ∨ k ≠ 0 →
      v.toInt = (k + r.bytes.length : Nat)) :
    WriteRun Rely id k segs s (t.ret v) [.write (.pipe id) data (some r)] := by
  have hbytes : movedBytes [r] = r.bytes := append_nil _
  refine ⟨h.wrote.calls, h.record, ?_, fun halone => ?_, fun halone => ?_, fun halone hk => ?_,
    fun hs => ?_⟩ <;>
    rw [wroteOn_self, show wroteOn (.pipe id) [] = [] from rfl]
  · exact accounted_last hcut hok
  · exact (h.data halone).trans (congrArg _ hbytes.symm)
  · rw [hbytes]
    exact h.room halone
  · exact hfirst halone hk
  · rw [cutShort_one]
    exact fun hcut => hcut.2.1 (hsteady hs hcut.1)

/-- A write without an error, and the rest. -/
theorem WroteHandle.next (h : WroteHandle Rely id data r s t) (herr : r.err = none)
    (hrest : WriteRun Rely id (k + r.bytes.length) segs t u new) :
    WriteRun Rely id k (data :: segs) s u (.write (.pipe id) data (some r) :: new) := by
  refine ⟨?_, hrest.record.trans h.record, ?_, fun halone => ?_, fun halone => ?_,
    fun halone hk => ?_,
    fun hs => ?_⟩
  · rw [hrest.calls, h.wrote.calls, reverse_cons, append_assoc]
    rfl
  · rw [wroteOn_self]
    exact hrest.value.cons herr
  · rw [hrest.data halone, h.data halone, wroteOn_self, movedBytes_cons, append_assoc]
  · have hroom := h.room halone
    have hleft := hrest.room halone
    rw [h.data halone, length_append] at hleft
    rw [wroteOn_self, movedBytes_cons, length_append]
    omega
  · subst hk
    rw [wroteOn_self, cutShort_cons herr]
    have hwhole := (h.part halone).whole herr
    by_cases hdata : data = []
    · -- nothing yet: the rest finds the pipe as it was
      have hsame : FirstCuts t.objs id segs ↔ FirstCuts s.objs id segs := by
        unfold FirstCuts
        rw [h.ends, h.same halone hdata]
      rw [hdata] at hwhole ⊢
      rw [hwhole] at hrest ⊢
      exact ((hrest.first halone rfl).trans hsame).trans firstCuts_empty.symm
    · have hroom := (h.part halone).room
      rw [hwhole] at hroom
      refine iff_of_false (not_cutShort_of_pos ?_) ?_
      · rw [hwhole, Nat.zero_add]
        exact length_pos_iff.mpr hdata
      · rw [firstCuts_cons hdata]
        intro hcuts
        have hlt := hcuts.2.2.2
        omega
  · rw [wroteOn_self, cutShort_cons herr]
    refine hrest.steady ⟨hs.kept, ?_, (h.steady hs).2⟩
    rw [h.ends]
    exact hs.waits

theorem ensures_ret : Ensures (ret v) s Q ↔ Q () (s.ret v) := by
  constructor
  · intro h
    exact h () (s.ret v) rfl
  · intro h a t ht
    cases ht
    exact h

end Run

/-! ## The loop of `handleWritev` -/

/-- The rule of the loop.  `One` is what a write does, and `Run segs total` what the rest of a call
does that has come to `total`, with these segments to write. -/
structure WritevRule (w : Writer) (fd : Int) (e : Endpoint)
    (One : List U8 → Transfer → KState → KState → Prop)
    (Run : List (List U8) → U32 → KState → KState → Prop) : Prop where
  one : ∀ {data s}, s.writeTarget fd = some e → Ensures (writeBytesBy w fd data) s
    fun r t => One data r s t ∧ t.writeTarget fd = some e ∧ t.mem = s.mem
  done : ∀ {total s}, Run [] total s (s.ret total)
  unreadable : ∀ {total s}, Run [] total s (s.ret (if total = 0 then efault else total))
  failed : ∀ {total data rest r s t}, One data r s t → r.err ≠ none →
    Run (data :: rest) total s (t.ret (if total = 0 then efault else total + BitVec.ofNat 32 r.count))
  short : ∀ {total data rest r s t}, One data r s t → r.err = none → r.count ≠ data.length →
    Run (data :: rest) total s (t.ret (total + BitVec.ofNat 32 r.count))
  next : ∀ {total data rest r s t u}, One data r s t → r.err = none →
    Run rest (total + BitVec.ofNat 32 r.count) t u → Run (data :: rest) total s u

theorem WritevRule.loop {e : Endpoint} {iov : U32}
    {One : List U8 → Transfer → KState → KState → Prop}
    {Run : List (List U8) → U32 → KState → KState → Prop}
    (h : WritevRule w fd e One Run) (n : Nat) : ∀ {i : Nat} {total : U32} {s : KState},
      s.writeTarget fd = some e →
      Ensures (handleWritevLoopBy w fd iov n i total) s fun _ t => Run (segments s.mem iov n i) total s t := by
  induction n with
  | zero =>
    intro i total s _
    exact ensures_ret.mpr h.done
  | succ n ih =>
    intro i total s htarget
    unfold handleWritevLoopBy segments
    rw [ensures_bind, ensures_get]
    cases hseg : segment s.mem iov i with
    | none =>
      have hret : retTotal total efault = ret (if total = 0 then efault else total) := by
        unfold retTotal
        split <;> rfl
      rw [hret]
      exact ensures_ret.mpr h.unreadable
    | some data =>
      rw [ensures_bind]
      refine (h.one htarget).mono ?_
      rintro r t ⟨hone, htarget', hmem⟩
      unfold nextWritev
      by_cases herr : r.err = none
      · rw [if_neg (not_not.mpr herr)]
        split
        · exact ensures_ret.mpr (h.short hone herr ‹_›)
        · exact (ih htarget').mono fun _ u hrest => h.next hone herr (hmem ▸ hrest)
      -- `total == uint32(written)` after the addition asks if there was nothing before
      have hsame : total + BitVec.ofNat 32 r.count = BitVec.ofNat 32 r.count ↔ total = 0 := by
        generalize BitVec.ofNat 32 r.count = c
        constructor
        · intro hc
          bv_omega
        · rintro rfl
          exact BitVec.zero_add c
      have hfailed : Run (data :: segments s.mem iov n (i + 1)) total s
          (t.ret (if total = 0 then efault else _)) := h.failed hone herr
      rw [if_pos herr]
      split
      · rw [if_pos (hsame.mp ‹_›)] at hfailed
        exact ensures_ret.mpr hfailed
      · rw [if_neg fun hzero => ‹¬ _› (hsame.mpr hzero)] at hfailed
        exact ensures_ret.mpr hfailed

theorem eq_zero_of_ofNat (hk : k < 2 ^ 31) (h : BitVec.ofNat 32 k = 0) : k = 0 := by
  have hval := congrArg BitVec.toNat h
  rwa [toNat_ofNat_of_lt (by omega)] at hval

theorem ofNat_add_count (h : WroteOne Rely id data r s t) :
    BitVec.ofNat 32 k + BitVec.ofNat 32 r.count = BitVec.ofNat 32 (k + r.bytes.length) := by
  rw [h.count, BitVec.ofNat_add]

theorem writevRule_pipe (hw : WritesPipes Rely w) :
    WritevRule w fd (.handle (.pipe id)) (WroteHandle Rely id) fun segs total s t =>
      ∀ k, total = BitVec.ofNat 32 k → ∃ new, WriteRun Rely id k segs s t new where
  one htarget := by
    refine (ensures_writeBytesBy hw htarget).mono fun r t hone => ⟨hone, ?_, hone.wrote.mem⟩
    exact (writeTarget_congr hone.wrote.tty hone.wrote.files fd).trans htarget
  done := by
    rintro total s k rfl
    exact ⟨[], .ret fun hk => .inl (toInt_ofNat_of_lt hk)⟩
  unreadable := by
    rintro total s k rfl
    refine ⟨[], .ret fun hk => ?_⟩
    split
    · exact .inr ⟨eq_zero_of_ofNat hk ‹_›, by decide⟩
    · exact .inl (toInt_ofNat_of_lt hk)
  failed := by
    rintro total data rest r s t hone herr k rfl
    refine ⟨_, hone.last (fun halone _ => hone.cutShort_iff halone (.inl herr))
      (fun hs => (hone.steady hs).1) (fun _ hk => ?_) fun hlen hor => ?_⟩
    · rw [hk, if_pos (show BitVec.ofNat 32 0 = 0 from rfl)]
      decide
    · have hk : k ≠ 0 := hor.resolve_left herr
      rw [if_neg fun h => hk (eq_zero_of_ofNat (by omega) h), ofNat_add_count hone.toWroteOne]
      exact toInt_ofNat_of_lt hlen
  short := by
    rintro total data rest r s t hone herr hshort k rfl
    refine ⟨_, hone.last (fun halone _ => absurd ?_ hshort) (fun _ hne => absurd herr hne)
      (fun hne => absurd herr hne) fun hlen _ => ?_⟩
    · rw [hone.count, (hone.part halone).whole herr]
    · rw [ofNat_add_count hone.toWroteOne]
      exact toInt_ofNat_of_lt hlen
  next := by
    rintro total data rest r s t u hone herr hrest k rfl
    obtain ⟨new, hrun⟩ := hrest _ (ofNat_add_count hone.toWroteOne)
    exact ⟨_, hone.next herr hrun⟩

/-! ## Both calls -/

/-- A call on a pipe from `s` to `t`, with the calls on handles that it has made.  `cut` is that it
would be cut short. -/
structure WriteEnds (Rely : Pipe → Pipe → Prop) (id : Nat) (cut : Prop) (s t : KState)
    (new : List HandleCall) : Prop where
  calls : t.calls = new.reverse ++ s.calls
  /-- If nobody else acts, the pipe has grown by what the writes have moved. -/
  data : Alone Rely →
    (t.objs.pipeOf id).data = (s.objs.pipeOf id).data ++ movedBytes (wroteOn (.pipe id) new)
  /-- A call that has blocked has written nothing yet. -/
  blocked : t.kern.blockedPipe ≠ s.kern.blockedPipe → movedBytes (wroteOn (.pipe id) new) = []
  /-- A call that has come to its end while nobody else acted. -/
  alone : Alone Rely → t.kern.blockedPipe = s.kern.blockedPipe →
    (Reports (movedBytes (wroteOn (.pipe id) new)) (t.cpu.regs EAX) ↔ ¬ cut)
  /-- A call that has come to its end while others acted, and left the pipe a reader. -/
  steady : Steady Rely id s → t.kern.blockedPipe = s.kern.blockedPipe →
    (Reports (movedBytes (wroteOn (.pipe id) new)) (t.cpu.regs EAX) ↔
      (movedBytes (wroteOn (.pipe id) new)).length < 2 ^ 31)

section Ends
variable {cut : Prop} {segs : List (List U8)}

theorem WriteRun.ends (h : WriteRun Rely id 0 segs s t new)
    (hcut : cut ↔ FirstCuts s.objs id segs) :
    WriteEnds Rely id cut s t new := by
  refine ⟨h.calls, h.data, fun hne => absurd h.record hne, fun halone _ => ?_, fun hs _ => ?_⟩
  · have hlen : (movedBytes (wroteOn (.pipe id) new)).length < 2 ^ 31 :=
      Nat.lt_of_le_of_lt (Nat.le_trans (h.room halone) (Nat.sub_le ..)) (by decide)
    rw [h.value.reports_iff, and_iff_right hlen, hcut, h.first halone rfl]
  · rw [h.value.reports_iff, and_iff_left (h.steady hs)]

theorem WriteEnds.of_nothing (hcut : ¬ cut) (hcalls : t.calls = new.reverse ++ s.calls)
    (hnothing : movedBytes (wroteOn (.pipe id) new) = [])
    (hdata : Alone Rely → (t.objs.pipeOf id).data = (s.objs.pipeOf id).data) :
    WriteEnds Rely id cut s t new := by
  have hreports : Reports [] (t.cpu.regs EAX) := ⟨fun hne => absurd rfl hne, fun _ => rfl⟩
  refine ⟨hcalls, fun halone => ?_, fun _ => hnothing, fun _ _ => ?_,
    fun _ _ => ?_⟩ <;> rw [hnothing]
  · rw [hdata halone, append_nil]
  · exact iff_of_true hreports hcut
  · exact iff_of_true hreports (by decide)

structure WriteAside (Rely : Pipe → Pipe → Prop) (id : Nat) (s t : KState) (new : List HandleCall) :
    Prop where
  calls : t.calls = new.reverse ++ s.calls
  none : wroteOn (.pipe id) new = []
  data : Alone Rely → (t.objs.pipeOf id).data = (s.objs.pipeOf id).data

theorem WriteAside.ends (h : WriteAside Rely id s t new) (hcut : ¬ cut) :
    WriteEnds Rely id cut s t new :=
  .of_nothing hcut h.calls (by rw [h.none]; rfl) h.data

end Ends

/-- `writeBytes` on the terminal. -/
theorem ensures_writeBytesBy_terminal (hw : WritesPipes Rely w) (id : Nat) {tty : Nat}
    (htarget : s.writeTarget fd = some (.terminal tty)) :
    Ensures (writeBytesBy w fd data) s fun r t =>
      WriteAside Rely id s t [.write (.tty tty) data (some r)] ∧
        t.writeTarget fd = some (.terminal tty) ∧ t.mem = s.mem := by
  unfold writeBytesBy
  rw [ensures_bind, ensures_get, htarget, ensures_bind]
  intro r t hr
  have hwrote := (hw.called hr).wrote
  have hdata : Alone Rely → (t.objs.pipeOf id).data = (s.objs.pipeOf id).data := by
    intro halone
    rw [halone _ _ (hw.terminal hr)]
  have hnone : wroteOn (.pipe id) [.write (.tty tty) data (some r)] = [] := rfl
  split
  · rw [ensures_bind]
    intro _ u hu
    cases hu
    have hsignal := hwrote.queueSignal 13
    exact ensures_pure.mpr ⟨⟨hsignal.calls, hnone, hdata⟩,
      (writeTarget_congr hsignal.tty hsignal.files fd).trans htarget, hsignal.mem⟩
  · exact ensures_pure.mpr ⟨⟨hwrote.calls, hnone, hdata⟩,
      (writeTarget_congr hwrote.tty hwrote.files fd).trans htarget, hwrote.mem⟩

theorem WriteAside.trans {u : KState} {c : HandleCall} {cs : List HandleCall}
    (h : WriteAside Rely id s t [c]) (h' : WriteAside Rely id t u cs) :
      WriteAside Rely id s u (c :: cs) := by
  refine ⟨?_, ?_, fun halone => (h'.data halone).trans (h.data halone)⟩
  · simp only [h'.calls, h.calls, reverse_cons, reverse_nil, nil_append, append_assoc]
  have hsplit : wroteOn (.pipe id) (c :: cs) = wroteOn (.pipe id) [c] ++ wroteOn (.pipe id) cs :=
    filterMap_append (l := [c])
  rw [hsplit, h.none, h'.none]
  rfl

theorem writevRule_terminal (hw : WritesPipes Rely w) (tty id : Nat) :
    WritevRule w fd (.terminal tty)
      (fun data r s t => WriteAside Rely id s t [.write (.tty tty) data (some r)])
      fun _ _ s t => ∃ new, WriteAside Rely id s t new where
  one htarget := ensures_writeBytesBy_terminal hw id htarget
  done := ⟨[], rfl, rfl, fun _ => rfl⟩
  unreadable := ⟨[], rfl, rfl, fun _ => rfl⟩
  failed h _ := ⟨_, h.calls, h.none, h.data⟩
  short h _ _ := ⟨_, h.calls, h.none, h.data⟩
  next h _ hrest := by
    obtain ⟨cs, hcs⟩ := hrest
    exact ⟨_, h.trans hcs⟩

/-- `writeBytes` on a pipe descriptor goes to the pipe, or to the terminal. -/
theorem writeTarget_pipe (hentry : s.entry fd = some (.pipe id)) :
    s.writeTarget fd = some (.handle (.pipe id)) ∨
      ∃ tty, s.writeTarget fd = some (.terminal tty) := by
  have hwrite : s.writeEntry fd =
    some (.handle (.pipe id)) := by rw [KState.writeEntry, hentry]; rfl
  unfold KState.writeTarget
  cases s.kern.tty with
  | none => exact .inl hwrite
  | some tty =>
    dsimp only
    split
    · exact .inr ⟨tty, rfl⟩
    · exact .inl hwrite

theorem not_cutsShort_terminal {c : IOCall} {tty : Nat}
    (h : s.writeTarget c.fd = some (.terminal tty)) :
    ¬ c.CutsShort s id := by
  rintro ⟨htarget, -⟩
  cases h.symm.trans htarget

theorem ensures_writev (hw : WritesPipes Rely w) (hentry : s.entry fd = some (.pipe id))
    (iov count : U32) :
    Ensures (handleWritevLoopBy w fd iov (capCount count) 0 0) s fun _ t =>
      ∃ new, WriteEnds Rely id ((IOCall.writev fd iov count).CutsShort s id) s t new := by
  rcases writeTarget_pipe hentry with htarget | ⟨tty, htarget⟩
  · refine ((writevRule_pipe hw).loop _ htarget).mono fun _ t hrun => ?_
    obtain ⟨new, hnew⟩ := hrun 0 rfl
    exact ⟨new, hnew.ends (and_iff_right htarget)⟩
  · refine ((writevRule_terminal hw tty id).loop _ htarget).mono ?_
    rintro _ t ⟨new, hnew⟩
    exact ⟨new, hnew.ends (not_cutsShort_terminal htarget)⟩

/-- The end of `handleWrite` after `writeBytes`. -/
theorem retWrite_eq (r : Transfer) :
    ∃ v, retWrite r = ret v ∧ (r.err = none → v = BitVec.ofNat 32 r.count) ∧
      (r.err ≠ none → v.toInt < 0) := by
  obtain ⟨count, err, bytes⟩ := r
  cases err with
  | none => exact ⟨_, rfl, fun _ => rfl, fun h => absurd rfl h⟩
  | some e =>
    have hret : ∃ v, retWrite ⟨count, some e, bytes⟩ = ret v ∧ v.toInt < 0 := by
      cases e with
      | brokenPipe => exact ⟨epipe, rfl, by decide⟩
      | again => exact ⟨eagain, rfl, by decide⟩
      | _ => exact ⟨efault, rfl, by decide⟩
    obtain ⟨v, hv, hneg⟩ := hret
    exact ⟨v, hv, nofun, fun _ => hneg⟩

/-- The end of `handleWrite` on a pipe that it does not wait for. -/
theorem ensures_retNonblocking (r : Transfer) (s : KState) :
    Ensures (retNonblocking r) s fun _ t =>
      ∃ s' v, (s' = s ∨ s' = { s with kern := s.kern.queueSignal 13 }) ∧ t = s'.ret v ∧
        (r.err = none → v = BitVec.ofNat 32 r.count) ∧ (r.err ≠ none → v.toInt < 0) := by
  obtain ⟨count, err, bytes⟩ := r
  intro _ t ht
  cases err with
  | none =>
    cases ht
    exact ⟨s, _, .inl rfl, rfl, fun _ => rfl, fun h => absurd rfl h⟩
  | some e =>
    cases e with
    | brokenPipe =>
      cases ht
      exact ⟨_, epipe, .inr rfl, rfl, nofun, fun _ => by decide⟩
    | _ =>
      cases ht
      exact ⟨s, efault, .inl rfl, rfl, nofun, fun _ => by decide⟩

theorem WroteOne.run (h : WroteOne Rely id data r s t) {segs : List (List U8)}
    (hfirst : Alone Rely → (CutShort 0 [r] ↔ FirstCuts s.objs id segs))
    (hsteady : Steady Rely id s → r.err ≠ none → r.bytes = [])
    (hok : r.err = none → v = BitVec.ofNat 32 r.count) (hfailed : r.err ≠ none → v.toInt < 0) :
    WriteRun Rely id 0 segs s (t.ret v) [.write (.pipe id) data (some r)] := by
  refine h.last (fun halone _ => hfirst halone) hsteady (fun herr _ => hfailed herr) fun hlen hor => ?_
  rw [hok (hor.resolve_right fun hne => hne rfl), h.count]
  rw [Nat.zero_add] at hlen ⊢
  exact toInt_ofNat_of_lt hlen

theorem wroteOne_nothing (h : r.bytes = []) :
    movedBytes (wroteOn (.pipe id) [.write (.pipe id) data (some r)]) = [] := by
  rw [wroteOn_self, movedBytes_cons, h]
  rfl

theorem ensures_blockPipe {b : PipeBlock}
    (hblock : Q () { s with kern := { s.kern with blockedPipe := some b } })
      (hagain : Q () (s.ret eagain)) :
    Ensures (blockPipe b) s Q := by
  intro _ t ht
  unfold blockPipe at ht
  cases hrecord : s.kern.blockedPipe with
  | none =>
    rw [hrecord] at ht
    cases ht
    exact hblock
  | some b' =>
    rw [hrecord] at ht
    cases ht
    exact hagain

theorem ensures_writeData (hw : WritesPipes Rely w) (hentry : s.entry fd = some (.pipe id))
    {addr count : U32} (hread : writeSegments s.mem addr count = [data]) :
    Ensures (handleWriteDataBy w fd addr count data) s fun _ t =>
      ∃ new, WriteEnds Rely id ((IOCall.write fd addr count).CutsShort s id) s t new := by
  unfold handleWriteDataBy IOCall.CutsShort
  rw [ensures_bind, ensures_get, show (IOCall.write fd addr count).offered s =
    if s.kern.schedulerAware then [] else [data] from congrArg (ite _ []) hread]
  cases haware : s.kern.schedulerAware with
  | true =>
    have htarget : s.nonblockingTarget fd = some (.nonblocking id) := by
      simp only [KState.nonblockingTarget, hentry, haware, if_true]
    rw [htarget]
    rw [ensures_bind]
    intro r t hr
    obtain ⟨hone, -, hfailed⟩ := hw.nonblocking_one hr
    have hwhole : ¬ CutShort 0 [r] := fun hcut =>
      (cutShort_one.mp hcut).2.1 (hfailed (cutShort_one.mp hcut).1)
    have hfirst : Alone Rely → (CutShort 0 [r] ↔ FirstCuts s.objs id []) := fun _ =>
      iff_of_false hwhole not_firstCuts_nil
    rw [if_pos rfl]
    split
    · rename_i hblocks
      have herr : r.err = some .wouldBlock := of_decide_eq_true hblocks
      have hbytes : r.bytes = [] := hfailed (by rw [herr]; exact nofun)
      have hdata : Alone Rely → (t.objs.pipeOf id).data = (s.objs.pipeOf id).data := by
        intro halone
        rw [hone.data halone, hbytes, append_nil]
      refine ensures_blockPipe ⟨[.write (.pipe id) data (some r)], ?_⟩ ⟨[.write (.pipe id) data (some r)], ?_⟩
      all_goals
        exact .of_nothing (fun hcut => not_firstCuts_nil hcut.2) hone.wrote.calls
          (wroteOne_nothing hbytes) hdata
    · refine (ensures_retNonblocking r t).mono ?_
      have hcut : s.writeTarget fd = some (.handle (.pipe id)) ∧ FirstCuts s.objs id [] ↔
          FirstCuts s.objs id [] := and_iff_right_of_imp fun h => absurd h not_firstCuts_nil
      rintro _ u ⟨t', v, rfl | rfl, rfl, hok, hneg⟩
      · exact ⟨_, (hone.run hfirst (fun _ => hfailed) hok hneg).ends hcut⟩
      · exact ⟨_, ((hone.queueSignal 13).run hfirst (fun _ => hfailed) hok hneg).ends hcut⟩
  | false =>
    have htarget : s.nonblockingTarget fd = none := by
      simp only [KState.nonblockingTarget, hentry, haware, Bool.false_eq_true, if_false]
    rw [htarget, if_neg Bool.false_ne_true]
    rw [ensures_bind]
    rcases writeTarget_pipe hentry with hpipe | ⟨tty, hterminal⟩
    · refine (ensures_writeBytesBy hw hpipe).mono fun r t hone => ?_
      obtain ⟨v, hv, hok, hneg⟩ := retWrite_eq r
      rw [hv]
      exact ensures_ret.mpr ⟨_, (hone.run (fun halone => hone.cutShort_iff halone (.inr rfl))
        (fun hs => (hone.steady hs).1) hok hneg).ends (and_iff_right hpipe)⟩
    refine (ensures_writeBytesBy_terminal hw id hterminal).mono ?_
    rintro r t ⟨haside, -⟩
    obtain ⟨v, hv, -, -⟩ := retWrite_eq r
    rw [hv]
    refine ensures_ret.mpr ⟨_, WriteAside.ends ⟨haside.calls, haside.none, haside.data⟩ ?_⟩
    rintro ⟨htarget, -⟩
    cases hterminal.symm.trans htarget

theorem ensures_write (hw : WritesPipes Rely w) (hentry : s.entry fd = some (.pipe id))
    (addr count : U32) :
    Ensures (handleWriteBy w fd addr count) s fun _ t =>
      ∃ new, WriteEnds Rely id ((IOCall.write fd addr count).CutsShort s id) s t new := by
  unfold handleWriteBy
  rw [ensures_bind, ensures_get]
  cases hread : s.mem.readBytes addr (BitVec.ofNat 32 (capCount count)) with
  | error e =>
    have hsegs : writeSegments s.mem addr count = [] := by rw [writeSegments, hread]; rfl
    refine ensures_ret.mpr ⟨[], .of_nothing ?_ rfl rfl fun _ => rfl⟩
    rintro ⟨-, hcuts⟩
    rw [IOCall.offered, hsegs, ite_self] at hcuts
    exact not_firstCuts_nil hcuts
  | ok data => exact ensures_writeData hw hentry (by rw [writeSegments, hread]; rfl)

/-- `write` and `writev` -/
def IOCall.writes : IOCall → Bool
  | write _ _ _ | writev _ _ _ => true
  | read _ _ _ | readv _ _ _ | lseek _ _ _ | fstat64 _ _ => false

structure ResumeEnds (id : Nat) (s t : KState) (completed : Bool) (new : List HandleCall) :
    Prop where
  calls : t.calls = new.reverse ++ s.calls
  data : (t.objs.pipeOf id).data = (s.objs.pipeOf id).data ++ movedBytes (wroteOn (.pipe id) new)
  blocked : completed = false → movedBytes (wroteOn (.pipe id) new) = []
  reports : completed = true → Reports (movedBytes (wroteOn (.pipe id) new)) (t.cpu.regs EAX)

section Resume
variable {host : Host} {b : PipeBlock} {completed : Bool}

theorem call_of_write (hwrite : b.write = true) (r : Transfer) :
    b.call (.pipe id) (some r) = .write (.pipe id) b.data (some r) := if_pos hwrite

theorem reports_of_one (hcount : r.count = r.bytes.length)
    (hcap : r.count ≤ pipeCapacity) (hv : r.bytes ≠ [] → v = BitVec.ofNat 32 r.count) :
      Reports r.bytes v := by
  have hlt : r.count < 2 ^ 31 := Nat.lt_of_le_of_lt hcap (by decide)
  have hvalue : r.bytes ≠ [] → v.toInt = r.bytes.length := by
    intro hne
    rw [hv hne, toInt_ofNat_of_lt hlt, hcount]
  refine ⟨hvalue, fun hneg => ?_⟩
  by_contra hne
  have hval := hvalue hne
  omega

/-- `TryResumeBlocked` on a pipe. -/
theorem resume_ends (hwrite : b.write = true) (hentry : s.entry b.fd = some (.pipe id))
    (h : tryResumeBlockedPipe host b s = .ok completed t) :
      ∃ new, ResumeEnds id s t completed new := by
  obtain ⟨r, o, hmethod⟩ := method_ok b id s.objs
  have hwriteTo : writeTo host (.nonblocking id) b.data s =
      .ok r { s with objs := o, calls := .write (.pipe id) b.data (some r) :: s.calls } := by
    have htries := tries_eq (s := s) host hmethod
    rw [call_of_write hwrite] at htries
    rw [← htries, PipeBlock.tries, if_pos hwrite]
  obtain ⟨hone, hcap, hfailed⟩ :=
    (@writesPipes_writeTo Eq (fun _ => rfl) host).nonblocking_one hwriteTo
  have hdata := hone.data fun _ _ hpq => hpq.symm
  have hbytes : movedBytes (wroteOn (.pipe id) [.write (.pipe id) b.data (some r)]) = r.bytes := by
    rw [wroteOn_self, movedBytes_cons]
    exact append_nil _
  refine ⟨[.write (.pipe id) b.data (some r)], ?_⟩
  rw [tryResume_pipe host hentry, bind_of_ok (tries_eq host hmethod), call_of_write hwrite] at h
  split at h
  · rename_i hblock
    have hnil : r.bytes = [] := hfailed (by rw [hblock]; exact nofun)
    cases h
    exact ⟨hone.wrote.calls, hbytes.symm ▸ hdata, fun _ => hbytes.trans hnil, nofun⟩
  obtain ⟨_, u, hunblock, hend⟩ := bind_ok h
  cases hunblock
  obtain ⟨t', ht', hcalls, hobjs, hreturns⟩ := ends_spec b r
    { s with
      objs := o, calls := .write (.pipe id) b.data (some r) :: s.calls
      kern := { s.kern with blockedPipe := none } }
  rw [bind_of_ok ht'] at hend
  cases hend
  refine ⟨hcalls, ?_, nofun, fun _ => ?_⟩
  · rw [hbytes, hobjs]
    exact hdata
  rw [hbytes]
  refine reports_of_one hone.count hcap fun hne => ?_
  -- with bytes there is no error, and the count is returned
  have herr : r.err = none := by
    by_contra herr
    exact hne (hfailed herr)
  have hret := hreturns (.inl herr)
  unfold PipeBlock.Returns at hret
  rw [if_pos hwrite, herr, if_neg nofun] at hret
  exact hret.2

end Resume

/-- **What a write on a pipe returns.**  With any writer that does with pipes what the handles do,
among others that act as `Rely` says.  A `write` or `writev` that has come to its end, and nobody
else has acted, says what it has appended if and only if `CutsShort` did not hold before it; if
others have acted, it does so on an end that waits, as long as they leave the pipe a reader and
the number can be returned.  One that has blocked has appended nothing, and when it is resumed it
says what it has appended. -/
theorem write_reports_iff {Rely : Pipe → Pipe → Prop} {w : Writer} (hw : WritesPipes Rely w)
    (rd : Reader)
    (host : Host) (s : KState) (id : Nat) :
    (∀ (c : IOCall) (t : KState), c.writes = true → s.entry c.fd = some (.pipe id) →
      c.runAmong rd w host s = .ok () t → ∃ new, WriteEnds Rely id (c.CutsShort s id) s t new) ∧
    (∀ (b : PipeBlock) (completed : Bool) (t : KState), b.write = true →
      s.entry b.fd = some (.pipe id) →
      tryResumeBlockedPipe host b s = .ok completed t →
        ∃ new, ResumeEnds id s t completed new) := by
  refine ⟨fun c t hc hentry hrun => ?_, fun b completed t hwrite hentry hrun => ?_⟩
  · cases c with
    | write fd addr count => exact ensures_write hw hentry addr count () t hrun
    | writev fd iov count => exact ensures_writev hw hentry iov count () t hrun
    | read | readv | lseek | fstat64 => cases hc
  · exact resume_ends hwrite hentry hrun

/-! ## A nearly full pipe -/

/-- A pipe that does not wait, with room for some of the bytes: the count comes with an error. -/
theorem pipeWrite_short {room : Nat} {src : List U8} {o : Objects}
    (hwrite : (o.ends id).write = true)
    (hnonblock : (o.ends id).nonblock = true) (hreaders : (o.pipeOf id).readers ≠ 0)
    (hroom : (o.pipeOf id).data.length + room = pipeCapacity) (hpos : 0 < room)
      (hlong : room < src.length) :
    pipeWrite id src o = .ok ⟨room, some .again, src.take room⟩
      (o.setPipe (o.ends id).pipe { o.pipeOf id with data := (o.pipeOf id).data ++ src.take room }) := by
  have hfirst := @Pipe.writeTurn_room (o.pipeOf id) src true room hreaders hroom hpos hlong
  have hlen : ((o.pipeOf id).data ++ src.take room).length = pipeCapacity := by
    rw [length_append, length_take_of_le (Nat.le_of_lt hlong), hroom]
  have hsecond := @Pipe.writeTurn_full { o.pipeOf id with data := (o.pipeOf id).data ++ src.take room } src true room
    hreaders hlen.ge
  rw [if_pos rfl] at hsecond
  obtain ⟨n, hn⟩ : ∃ n, src.length = n + 1 := Nat.exists_eq_succ_of_ne_zero (by omega)
  rw [pipeWrite, get_bind, hwrite, if_neg (by decide), if_neg (by omega), hn, pipeWriteLoop_succ,
    hnonblock,
    show (o.pipes (o.ends id).pipe).writeTurn true src 0 = _ from hfirst]
  dsimp only
  rw [pipeWriteLoop_succ, Objects.setPipe_self, hnonblock, hsecond]
  rw [Objects.setPipe, Objects.setPipe, Function.update_idem]

/-- Two bytes at 16, and a vector with these two as its only segment at 0. -/
def twoBytes : Memory :=
  { Memory.new 4096 with
    data := fun x => if x = 0 then 16 else if x = 4 then 2 else if x = 16 ∨ x = 17 then 7 else 0 }

theorem twoBytes_segments :
    writeSegments twoBytes 16 2 = [[7, 7]] ∧ segment twoBytes 0 0 = some [7, 7] := by
  decide

/-- Descriptor 3 is the write end of a pipe, with `O_NONBLOCK`. -/
def pipeTask (p : Pipe) : KState :=
  { KState.new true none CPU.new twoBytes
      { Objects.new with pipes := fun _ => p, ends := fun _ => ⟨0, true, true, false⟩ } with
    files := Files.new.install 3 (.pipe 0) }

/-- On an empty pipe `write` says that it has written two bytes. -/
theorem write_reports_iff_empty :
    ∃ t, (IOCall.write 3 16 2).run silent (pipeTask Pipe.new) = .ok () t ∧
      (t.objs.pipeOf 0).data = [7, 7] ∧ Reports [7, 7] (t.cpu.regs EAX) := by
  have hrun := ok_of_returned (show returned ((IOCall.write 3 16 2).run silent) (pipeTask Pipe.new) = some ()
    by decide +kernel)
  obtain ⟨new, hends⟩ := (write_reports_iff (@writesPipes_writeTo Eq (fun _ => rfl) silent)
    (readFrom silent) silent (pipeTask Pipe.new) 0).1 (.write 3 16 2) _ rfl (by decide)
    ((congrFun (runAmong_alone _ _) _).trans hrun)
  have hdata : ((after ((IOCall.write 3 16 2).run silent) (pipeTask Pipe.new)).objs.pipeOf 0).data =
      [7, 7] := by decide +kernel
  have hmoved := (hends.data fun _ _ h => h.symm).symm.trans hdata
  refine ⟨_, hrun, hdata, ?_⟩
  rw [← hmoved]
  refine (hends.alone (fun _ _ h => h.symm) (by decide +kernel)).mpr ?_
  rintro ⟨-, data, hfind, hcuts⟩
  cases (show ((IOCall.write 3 16 2).offered (pipeTask Pipe.new)).find? (· ≠ []) = some [7, 7] by
    decide +kernel).symm.trans hfind
  exact absurd hcuts.2.2.2.2 (by decide)

def cutTask (p : Pipe) : KState :=
  { pipeTask p with
    objs := (pipeTask p).objs.setPipe 0 { p with data := p.data ++ [7] }
    calls := [.write (.pipe 0) [7, 7] (some ⟨1, some .again, [7]⟩)] }

theorem cutTask_data (p : Pipe) : ((cutTask p).objs.pipeOf 0).data = p.data ++ [7] :=
  congrArg Pipe.data (Objects.setPipe_self (pipeTask p).objs 0 _)

section Cut
variable {p : Pipe} (hreaders : p.readers ≠ 0) (hroom : p.data.length = pipeCapacity - 1)
include hreaders hroom

theorem writeBytes_cut : writeBytes silent 3 [7, 7] (pipeTask p) = .ok ⟨1, some .again,
    [7]⟩ (cutTask p) := by
  have hone : p.data.length + 1 = pipeCapacity := by
    rw [hroom]
    exact Nat.sub_add_cancel (by decide)
  have hpipe := @pipeWrite_short 0 1 [7, 7] (pipeTask p).objs rfl rfl hreaders hone (by decide) (by decide)
  have hto : writeTo silent (.handle (.pipe 0)) [7, 7] (pipeTask p) =
      .ok ⟨1, some .again, [7]⟩ (cutTask p) := by
    unfold writeTo onHandle
    rw [show Endpoint.write silent [7, 7] (.handle (.pipe 0)) (pipeTask p).objs = _ from hpipe]
    rfl
  exact bind_of_ok hto

theorem write_cut : (IOCall.write 3 16 2).run silent (pipeTask p) =
    .ok () ((cutTask p).ret eagain) := by
  refine (handleWrite_readable silent 3 twoBytes_segments.1).1.trans ?_
  exact bind_of_ok (writeBytes_cut hreaders hroom)

theorem writev_cut : (IOCall.writev 3 0 1).run silent (pipeTask p) =
    .ok () ((cutTask p).ret efault) := by
  show handleWritevLoop silent 3 0 1 0 0 (pipeTask p) = _
  rw [handleWritevLoop_succ silent 3 0 0 0 twoBytes_segments.2]
  exact bind_of_ok (writeBytes_cut hreaders hroom)

end Cut

def nearlyFull : Pipe := { Pipe.new with data := replicate (pipeCapacity - 1) 0 }

theorem nearlyFull_length : nearlyFull.data.length = pipeCapacity - 1 := length_replicate

/-- With room for one of two bytes, `write` returns `-EAGAIN` and `writev` returns `-EFAULT`, and
the byte is in the pipe. -/
theorem write_cut_short :
    (∃ t, (IOCall.write 3 16 2).run silent (pipeTask nearlyFull) = .ok () t ∧
      t.cpu.regs EAX = eagain ∧ (t.objs.pipeOf 0).data = nearlyFull.data ++ [7]) ∧
    ∃ t, (IOCall.writev 3 0 1).run silent (pipeTask nearlyFull) = .ok () t ∧
      t.cpu.regs EAX = efault ∧ (t.objs.pipeOf 0).data = nearlyFull.data ++ [7] := by
  have hreaders : nearlyFull.readers ≠ 0 := show (1 : Int) ≠ 0 by decide
  exact ⟨⟨_, write_cut hreaders nearlyFull_length, rfl, cutTask_data nearlyFull⟩,
    ⟨_, writev_cut hreaders nearlyFull_length, rfl, cutTask_data nearlyFull⟩⟩

end IshGo.Kernel
