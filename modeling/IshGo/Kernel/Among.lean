/-
# `IshGo.Kernel.Among` — reads and writes among other threads

`IshGo.Kernel.FileIO` runs a call alone, and a call that has to wait for another thread ends there
in `Hang`.  Here the methods of the handles are parameters: a `Reader` and a `Writer` stand for
`Read` and `Write`, and the system calls are the same with these in place of `readFrom` and
`writeTo` (`runAmong_alone`).
-/
import IshGo.Kernel.PipeCount
import IshGo.Lib.Ensures

namespace IshGo.Kernel

open I386 Lib Pipe

variable {id len : Nat} {o o' : Objects}
variable {err : Option IOErr} {host : Host} {p p' : Pipe}
variable {r : Transfer} {src : List U8}

/-! ## The system calls -/

abbrev Reader := Endpoint → Nat → KernelM Transfer
abbrev Writer := Endpoint → List U8 → KernelM Transfer

section Calls
variable (rd : Reader) (w : Writer)

def handleReadBy (fd : Int) (addr count : U32) : KernelM Unit := do
  let s ← get
  match s.readSource fd s.kern.schedulerAware with
  | none => ret ebadf
  | some e => do
      let r ← rd e (capCount count)
      if e.blocks r then blockPipe ⟨fd, addr, count, false, []⟩ else storeRead addr r

def handleReadvLoopBy (fd : Int) (iovAddr : U32) : Nat → Nat → U32 → KernelM Unit
  | 0, _, total => ret total
  | n + 1, i, total => do
      let s ← get
      match iovec s.mem iovAddr i with
      | none => retTotal total efault
      | some (base, length) =>
        match s.readSource fd false with
        | none => retTotal total ebadf
        | some e => do
            let r ← rd e (capCount length)
            storeReadv base total (capCount length) r (handleReadvLoopBy fd iovAddr n (i + 1))

def writeBytesBy (fd : Int) (data : List U8) : KernelM Transfer := do
  let s ← get
  match s.writeTarget fd with
  | none => return ⟨0, some .badFileDescriptor, []⟩
  | some e => do
      let r ← w e data
      if r.err = some .brokenPipe then queueSignal 13
      return r

def handleWriteDataBy (fd : Int) (addr count : U32) (data : List U8) : KernelM Unit := do
  let s ← get
  match s.nonblockingTarget fd with
  | some e => do
      let r ← w e data
      if e.blocks r then blockPipe ⟨fd, addr, count, true, data⟩ else retNonblocking r
  | none => do
      let r ← writeBytesBy w fd data
      retWrite r

def handleWriteBy (fd : Int) (addr count : U32) : KernelM Unit := do
  let s ← get
  match s.mem.readBytes addr (BitVec.ofNat 32 (capCount count)) with
  | .error _ => ret efault
  | .ok data => handleWriteDataBy w fd addr count data

def handleWritevLoopBy (fd : Int) (iovAddr : U32) : Nat → Nat → U32 → KernelM Unit
  | 0, _, total => ret total
  | n + 1, i, total => do
      let s ← get
      match segment s.mem iovAddr i with
      | none => retTotal total efault
      | some data => do
          let r ← writeBytesBy w fd data
          nextWritev total data.length r (handleWritevLoopBy fd iovAddr n (i + 1))

def IOCall.runAmong (host : Host) : IOCall → KernelM Unit
  | read fd addr count => handleReadBy rd fd addr count
  | readv fd iov count => handleReadvLoopBy rd fd iov (capCount count) 0 0
  | write fd addr count => handleWriteBy w fd addr count
  | writev fd iov count => handleWritevLoopBy w fd iov (capCount count) 0 0
  | lseek fd offset whence => Kernel.lseek host fd offset whence
  | fstat64 fd addr => statFD host fd addr

end Calls

theorem handleReadvLoopBy_readFrom (host : Host) (fd : Int) (iov : U32) (n : Nat) :
    ∀ i total, handleReadvLoopBy (readFrom host) fd iov n i total = handleReadvLoop host fd iov n i total := by
  induction n with
  | zero => exact fun _ _ => rfl
  | succ n ih =>
    intro i total
    have hnext : handleReadvLoopBy (readFrom host) fd iov n (i + 1) =
        handleReadvLoop host fd iov n (i + 1) := funext (ih (i + 1))
    rw [handleReadvLoopBy, handleReadvLoop]
    exact hnext ▸ rfl

theorem handleWritevLoopBy_writeTo (host : Host) (fd : Int) (iov : U32) (n : Nat) :
    ∀ i total, handleWritevLoopBy (writeTo host) fd iov n i total = handleWritevLoop host fd iov n i total := by
  induction n with
  | zero => exact fun _ _ => rfl
  | succ n ih =>
    intro i total
    have hnext : handleWritevLoopBy (writeTo host) fd iov n (i + 1) =
        handleWritevLoop host fd iov n (i + 1) := funext (ih (i + 1))
    rw [handleWritevLoopBy, handleWritevLoop]
    exact hnext ▸ rfl

theorem runAmong_alone (host : Host) (c : IOCall) :
    c.runAmong (readFrom host) (writeTo host) host = c.run host := by
  cases c with
  | readv fd iov count => exact handleReadvLoopBy_readFrom host fd iov _ 0 0
  | writev fd iov count => exact handleWritevLoopBy_writeTo host fd iov _ 0 0
  | read | write | lseek | fstat64 => rfl

/-! ## Writing to a pipe -/

/-- A `Write`, of which `written` bytes have been accepted, from the pipe `p` to the pipe `p'`.
Before each turn others act.  The bytes of the transfer are those that the turns append. -/
inductive WritesAmong (Rely : Pipe → Pipe → Prop) (nonblock : Bool) (src : List U8) :
    Nat → Pipe → Transfer → Pipe → Prop
  | ret {written n : Nat} {p q p' : Pipe} {err : Option IOErr} {bytes : List U8} : Rely p q →
      q.writeTurn nonblock src written = (.ret n err, bytes, p') →
      WritesAmong Rely nonblock src written p ⟨n, err, bytes⟩ p'
  | next {written m n : Nat} {p q p' p'' : Pipe} {err : Option IOErr} {bytes more : List U8} : Rely p q →
      q.writeTurn nonblock src written = (.next m, bytes, p') →
      WritesAmong Rely nonblock src m p' ⟨n, err, more⟩ p'' →
      WritesAmong Rely nonblock src written p ⟨n, err, bytes ++ more⟩ p''
  | wait {written n : Nat} {p q p' p'' : Pipe} {err : Option IOErr} {bytes more : List U8} : Rely p q →
      q.writeTurn nonblock src written = (.wait, bytes, p') →
      WritesAmong Rely nonblock src written p' ⟨n, err, more⟩ p'' →
      WritesAmong Rely nonblock src written p ⟨n, err, bytes ++ more⟩ p''

def Objects.pipeOf (o : Objects) (id : Nat) : Pipe := o.pipes (o.ends id).pipe

/-- Nobody else acts. -/
def Alone (Rely : Pipe → Pipe → Prop) : Prop := ∀ p q, Rely p q → q = p

/-- A writer that does with pipes what the handles do, among others that act as `Rely` says. -/
structure WritesPipes (Rely : Pipe → Pipe → Prop) (w : Writer) : Prop where
  called : ∀ {e data s r t}, w e data s = .ok r t → Called (.write e.target data (some r)) s t
  ends : ∀ {e data s r t}, w e data s = .ok r t → t.objs.ends = s.objs.ends
  /-- `Write`: the end is the wrong one, or nothing is asked for; or the loop. -/
  handle : ∀ {id data s r t}, w (.handle (.pipe id)) data s = .ok r t →
    (((s.objs.ends id).write = false ∧ r.err ≠ none ∨ data = [] ∧ r.err = none) ∧ r.count = 0 ∧
      r.bytes = [] ∧ Rely (s.objs.pipeOf id) (t.objs.pipeOf id)) ∨
    ((s.objs.ends id).write = true ∧ data ≠ [] ∧
      WritesAmong Rely (s.objs.ends id).nonblock data 0 (s.objs.pipeOf id) r (t.objs.pipeOf id))
  /-- `WriteNonblocking` -/
  nonblocking : ∀ {id data s r t}, w (.nonblocking id) data s = .ok r t →
    (r.count = 0 ∧ r.bytes = [] ∧ Rely (s.objs.pipeOf id) (t.objs.pipeOf id)) ∨
      ∃ q, Rely (s.objs.pipeOf id) q ∧ q.writeNonblocking data = (r, t.objs.pipeOf id)
  /-- The terminal has nothing to do with pipes. -/
  terminal : ∀ {tty data s r t id}, w (.terminal tty) data s = .ok r t →
    Rely (s.objs.pipeOf id) (t.objs.pipeOf id)

namespace Pipe

variable {t : Transfer}

theorem writeNonblocking_appends (h : p.writeNonblocking src = (t, p')) :
    p'.data = p.data ++ t.bytes ∧ t.count = t.bytes.length ∧
      t.count ≤ pipeCapacity - p.data.length ∧ (t.err ≠ none → t.bytes = []) := by
  unfold writeNonblocking at h
  cases hs : p.writeSection src with
  | none =>
    rw [hs] at h
    cases h
    exact ⟨(List.append_nil _).symm, rfl, Nat.zero_le _, fun _ => rfl⟩
  | some tp =>
    rw [hs] at h
    cases h
    obtain ⟨hdata, hcount, -, hcap, herr⟩ := writeSection_appends hs
    exact ⟨hdata, hcount, hcap, herr⟩

/-! A turn by the room in the pipe. -/

section Turn
variable (nonblock : Bool)

theorem writeTurn_broken (hreaders : p.readers = 0) :
    p.writeTurn nonblock src 0 = (.ret 0 (some .brokenPipe), [], p) := by
  have hsection : p.writeSection (src.drop 0) = some (⟨0, some .brokenPipe, []⟩, p) := if_pos hreaders
  rw [writeTurn, hsection]
  rfl

theorem writeTurn_whole (hreaders : p.readers ≠ 0) (hroom : p.data.length < pipeCapacity)
    (hfits : p.data.length + src.length ≤ pipeCapacity) :
    p.writeTurn nonblock src 0 = (.ret src.length none, src, { p with data := p.data ++ src }) := by
  have hsection : p.writeSection (src.drop 0) = some (⟨src.length, none, src⟩, { p with data := p.data ++ src }) := by
    unfold writeSection
    rw [if_neg hreaders, List.drop_zero]
    dsimp only
    rw [if_neg (by omega), if_neg (by omega), List.take_length]
  rw [writeTurn, hsection]
  dsimp only
  rw [if_neg (by decide), if_neg (by omega), Nat.zero_add]

theorem writeTurn_room {room : Nat} (hreaders : p.readers ≠ 0) (hroom : p.data.length + room = pipeCapacity)
    (hpos : 0 < room) (hlong : room < src.length) :
    p.writeTurn nonblock src 0 = (.next room, src.take room, { p with data := p.data ++ src.take room }) := by
  have hspace : pipeCapacity - p.data.length = room := by omega
  have hsection : p.writeSection (src.drop 0) =
      some (⟨room, none, src.take room⟩, { p with data := p.data ++ src.take room }) := by
    simp only [writeSection, if_neg hreaders, hspace, if_neg (Nat.ne_of_gt hpos), List.drop_zero, if_pos hlong]
  simp only [writeTurn, hsection, Option.isSome_none, Bool.false_eq_true, if_false, Nat.zero_add, if_pos hlong]

theorem writeTurn_full {written : Nat} (hreaders : p.readers ≠ 0) (hfull : pipeCapacity ≤ p.data.length) :
    p.writeTurn nonblock src written = (if nonblock then .ret written (some .again) else .wait, [], p) := by
  have hsection : p.writeSection (src.drop written) = none := by
    simp only [writeSection, if_neg hreaders, Nat.sub_eq_zero_of_le hfull, if_true]
  simp only [writeTurn, hsection]

end Turn

/-- A turn that waits if it has to, on a pipe with a reader. -/
theorem writeTurn_steady {turn : Turn} {bytes : List U8} {written : Nat} (hreaders : p.readers ≠ 0)
    (h : p.writeTurn false src written = (turn, bytes, p')) :
    (∀ n err, turn = .ret n err → err = none) ∧ p'.readers ≠ 0 := by
  unfold writeTurn writeSection at h
  rw [if_neg hreaders] at h
  dsimp only at h
  by_cases hfull : pipeCapacity - p.data.length = 0
  · rw [if_pos hfull] at h
    cases h
    exact ⟨nofun, hreaders⟩
  rw [if_neg hfull] at h
  dsimp only at h
  rw [if_neg (by decide)] at h
  generalize (if (src.drop written).length > pipeCapacity - p.data.length then _ else _ : Nat) = n at h
  split at h
  · cases h
    exact ⟨nofun, hreaders⟩
  · cases h
    refine ⟨fun n err heq => ?_, hreaders⟩
    cases heq
    rfl

end Pipe

/-- A `Write` of these bytes that does not wait finds room for some of them and not for all. -/
def PipeEnd.Cuts (e : PipeEnd) (p : Pipe) (data : List U8) : Prop :=
  e.write = true ∧ e.nonblock = true ∧ p.readers ≠ 0 ∧ p.data.length < pipeCapacity ∧
    pipeCapacity < p.data.length + data.length

/-- What a `Write` does if nobody else acts. -/
structure WrotePart (e : PipeEnd) (p : Pipe) (data : List U8) (r : Transfer) : Prop where
  room : r.bytes.length ≤ pipeCapacity - p.data.length
  whole : r.err = none → r.bytes = data
  cut : r.err ≠ none → (r.bytes ≠ [] ↔ e.Cuts p data)
  wrongEnd : data = [] → r.err ≠ none → e.write = false

section WritesAmong
variable {Rely : Pipe → Pipe → Prop} {nonblock : Bool} {written : Nat}

theorem WritesAmong.count_eq (h : WritesAmong Rely nonblock src written p r p') :
    r.count = written + r.bytes.length := by
  induction h with
  | ret _ hturn => exact (writeTurn_appends hturn).2.2.1 _ _ rfl
  | next _ hturn _ ih =>
    have hnext := (writeTurn_appends hturn).2.2.2.1 _ rfl
    dsimp only at ih ⊢
    rw [List.length_append]
    omega
  | wait _ hturn _ ih =>
    have hnil := (writeTurn_appends hturn).2.2.2.2.1 rfl
    rw [hnil]
    exact ih

theorem WritesAmong.appends (h : WritesAmong Rely nonblock src written p r p')
    (halone : Alone Rely) : p'.data = p.data ++ r.bytes := by
  induction h with
  | ret hrely hturn =>
    obtain rfl := halone _ _ hrely
    exact (writeTurn_appends hturn).1
  | next hrely hturn _ ih | wait hrely hturn _ ih =>
    obtain rfl := halone _ _ hrely
    rw [ih, (writeTurn_appends hturn).1, List.append_assoc]

/-- On a full pipe a `Write` alone comes to an end only if it does not wait. -/
theorem WritesAmong.full (h : WritesAmong Rely nonblock src written p r p')
    (halone : Alone Rely) (hreaders : p.readers ≠ 0) (hfull : pipeCapacity ≤ p.data.length) :
    nonblock = true ∧ r.err ≠ none ∧ r.bytes = [] := by
  induction h with
  | ret hrely hturn =>
    obtain rfl := halone _ _ hrely
    rw [writeTurn_full _ hreaders hfull] at hturn
    cases nonblock <;> cases hturn
    exact ⟨rfl, nofun, rfl⟩
  | next hrely hturn =>
    obtain rfl := halone _ _ hrely
    rw [writeTurn_full _ hreaders hfull] at hturn
    cases nonblock <;> cases hturn
  | wait hrely hturn _ ih =>
    obtain rfl := halone _ _ hrely
    rw [writeTurn_full _ hreaders hfull] at hturn
    cases nonblock <;> cases hturn
    exact ih hreaders hfull

/-- By the room in the pipe: none to read it, none at all, room for everything, or for a part. -/
theorem WritesAmong.part {e : PipeEnd} (h : WritesAmong Rely e.nonblock src 0 p r p')
    (halone : Alone Rely) (hwrite : e.write = true) (hsrc : src ≠ []) :
    WrotePart e p src r := by
  have hpos : 0 < src.length := List.length_pos_iff.mpr hsrc
  by_cases hreaders : p.readers = 0
  · have hbroken : p.writeTurn e.nonblock src 0 = _ := writeTurn_broken e.nonblock hreaders
    cases h with
    | ret hrely hturn =>
      obtain rfl := halone _ _ hrely
      cases hbroken.symm.trans hturn
      exact ⟨Nat.zero_le _, nofun, fun _ => iff_of_false (absurd rfl) fun hc => hc.2.2.1 hreaders,
        fun h => absurd h hsrc⟩
    | next hrely hturn | wait hrely hturn =>
      obtain rfl := halone _ _ hrely
      cases hbroken.symm.trans hturn
  by_cases hfull : pipeCapacity ≤ p.data.length
  · obtain ⟨-, herr, hbytes⟩ := h.full halone hreaders hfull
    refine ⟨?_, fun h => absurd h herr, fun _ => iff_of_false (absurd hbytes) ?_, fun h => absurd h hsrc⟩
    · rw [hbytes]
      exact Nat.zero_le _
    · exact fun hc => absurd hc.2.2.2.1 (Nat.not_lt.mpr hfull)
  have hlt := Nat.lt_of_not_le hfull
  by_cases hfits : p.data.length + src.length ≤ pipeCapacity
  · have hwhole := writeTurn_whole e.nonblock hreaders hlt hfits
    cases h with
    | ret hrely hturn =>
      obtain rfl := halone _ _ hrely
      cases hwhole.symm.trans hturn
      exact ⟨Nat.le_sub_of_add_le' hfits, fun _ => rfl, fun h => absurd rfl h, fun h => absurd h hsrc⟩
    | next hrely hturn | wait hrely hturn =>
      obtain rfl := halone _ _ hrely
      cases hwhole.symm.trans hturn
  · obtain ⟨room, hroom⟩ := Nat.exists_eq_add_of_le (Nat.le_of_lt hlt)
    have hpart : p.writeTurn e.nonblock src 0 = _ :=
      writeTurn_room e.nonblock hreaders hroom.symm (by omega) (by omega)
    have hlen : (src.take room).length = room := List.length_take_of_le (by omega)
    cases h with
    | next hrely hturn hrest =>
      obtain rfl := halone _ _ hrely
      cases hpart.symm.trans hturn
      obtain ⟨hnonblock, herr, hmore⟩ := hrest.full halone hreaders (by
        show _ ≤ (_ ++ _ : List U8).length
        rw [List.length_append, hlen]
        exact hroom.le)
      dsimp only at herr hmore
      rw [hmore, List.append_nil]
      refine ⟨?_, fun h => absurd h herr, fun _ => iff_of_true ?_ ?_, fun h => absurd h hsrc⟩
      · show (src.take room).length ≤ _
        omega
      · intro hnil
        have hzero : (src.take room).length = 0 := congrArg List.length hnil
        omega
      · exact ⟨hwrite, hnonblock, hreaders, hlt, Nat.lt_of_not_le hfits⟩
    | ret hrely hturn | wait hrely hturn =>
      obtain rfl := halone _ _ hrely
      cases hpart.symm.trans hturn

/-- A `Write` that waits if it has to does not fail as long as there is a reader. -/
theorem WritesAmong.steady (h : WritesAmong Rely false src written p r p')
    (hkept : ∀ p q, Rely p q → p.readers ≠ 0 → q.readers ≠ 0) (hreaders : p.readers ≠ 0) :
    r.err = none ∧ p'.readers ≠ 0 := by
  induction h with
  | ret hrely hturn =>
    obtain ⟨herr, hleft⟩ := writeTurn_steady (hkept _ _ hrely hreaders) hturn
    exact ⟨herr _ _ rfl, hleft⟩
  | next hrely hturn _ ih | wait hrely hturn _ ih =>
    exact ih (writeTurn_steady (hkept _ _ hrely hreaders) hturn).2

end WritesAmong

/-! ## `writeTo` writes to pipes -/

theorem onHandle_ok {log : Option Transfer → HandleCall} {x : ObjM Transfer} {s t : KState}
    (h : onHandle log x s = .ok r t) : x s.objs = .ok r t.objs ∧ Called (log (some r)) s t := by
  unfold onHandle at h
  cases hx : x s.objs with
  | ok r' o =>
    rw [hx] at h
    cases h
    exact ⟨rfl, rfl, rfl, rfl, rfl⟩
  | error e o =>
    rw [hx] at h
    cases h

theorem pipeWriteLoop_succ (e : PipeEnd) (src : List U8) (fuel written : Nat) (o : Objects) :
    let r := (o.pipes e.pipe).writeTurn e.nonblock src written
    pipeWriteLoop e src (fuel + 1) written o =
      match r.1 with
      | .ret n err => .ok ⟨n, err, src.take n⟩ (o.setPipe e.pipe r.2.2)
      | .next n => pipeWriteLoop e src fuel n (o.setPipe e.pipe r.2.2)
      | .wait => .error .hang (o.setPipe e.pipe r.2.2) := by
  intro r
  show ((modify fun x => x.setPipe e.pipe r.2.2) >>= fun _ => match r.1 with
    | .ret n err => pure ⟨n, err, src.take n⟩
    | .next n => pipeWriteLoop e src fuel n
    | .wait => throw .hang : ObjM Transfer) o = _
  cases r.1 with
  | ret | next | wait => rfl

@[simp] theorem Objects.setPipe_self (o : Objects) (id : Nat) (p : Pipe) : (o.setPipe id p).pipes id = p :=
  Function.update_self ..

section Alone
variable {Rely : Pipe → Pipe → Prop} (hrefl : ∀ p, Rely p p)
include hrefl

/-- The loop of `Write`: the fuel only bounds the turns. -/
theorem pipeWriteLoop_among {e : PipeEnd} (fuel : Nat) :
    ∀ {written : Nat} {o o' : Objects} {r : Transfer}, pipeWriteLoop e src fuel written o = .ok r o' →
      ∃ more, r.bytes = src.take written ++ more ∧
        WritesAmong Rely e.nonblock src written (o.pipes e.pipe) ⟨r.count, r.err, more⟩ (o'.pipes e.pipe) := by
  induction fuel with
  | zero =>
    intro written o o' r h
    cases h
  | succ fuel ih =>
    intro written o o' r h
    rcases hturn : (o.pipes e.pipe).writeTurn e.nonblock src written with ⟨turn, bytes, p'⟩
    obtain ⟨-, hbytes, hret, hnext, -⟩ := writeTurn_appends hturn
    rw [pipeWriteLoop_succ, hturn] at h
    cases turn with
    | ret n err =>
      cases h
      refine ⟨bytes, ?_, ?_⟩
      · rw [hret n err rfl, List.take_add, ← hbytes]
      · rw [Objects.setPipe_self]
        exact .ret (hrefl _) hturn
    | next n =>
      obtain ⟨more, hmore, hrun⟩ := ih h
      refine ⟨bytes ++ more, ?_, ?_⟩
      · rw [hmore, hnext n rfl, List.take_add, ← hbytes, List.append_assoc]
      · rw [Objects.setPipe_self] at hrun
        exact .next (hrefl _) hturn hrun
    | wait => cases h

theorem pipeWrite_among (h : pipeWrite id src o = .ok r o') :
    (((o.ends id).write = false ∧ r.err ≠ none ∨ src = [] ∧ r.err = none) ∧ r.count = 0 ∧
      r.bytes = [] ∧ Rely (o.pipeOf id) (o'.pipeOf id)) ∨
    ((o.ends id).write = true ∧ src ≠ [] ∧
      WritesAmong Rely (o.ends id).nonblock src 0 (o.pipeOf id) r (o'.pipeOf id)) := by
  have hends : o'.ends = o.ends := (Stays.of_ok (R := Objects.SameCounts) h).ends
  rw [pipeWrite, get_bind] at h
  split at h
  · rename_i hwrite
    cases h
    exact .inl ⟨.inl ⟨hwrite, nofun⟩, rfl, rfl, hrefl _⟩
  rename_i hwrite
  split at h
  · rename_i hlen
    cases h
    exact .inl ⟨.inr ⟨List.eq_nil_of_length_eq_zero hlen, rfl⟩, rfl, rfl, hrefl _⟩
  rename_i hlen
  obtain ⟨more, hmore, hrun⟩ := pipeWriteLoop_among hrefl _ h
  refine .inr ⟨Bool.eq_true_of_not_eq_false hwrite, fun hnil => hlen (congrArg List.length hnil), ?_⟩
  rw [Objects.pipeOf, Objects.pipeOf, hends]
  obtain ⟨count, err, bytes⟩ := r
  cases hmore
  exact hrun

theorem pipeWriteNonblocking_among (h : pipeWriteNonblocking id src o = .ok r o') :
    (r.count = 0 ∧ r.bytes = [] ∧ Rely (o.pipeOf id) (o'.pipeOf id)) ∨
      ∃ q, Rely (o.pipeOf id) q ∧ q.writeNonblocking src = (r, o'.pipeOf id) := by
  rw [pipeWriteNonblocking_eq] at h
  split at h
  · cases h
    exact .inl ⟨rfl, rfl, hrefl _⟩
  split at h
  · cases h
    exact .inl ⟨rfl, rfl, hrefl _⟩
  · cases h
    refine .inr ⟨_, hrefl _, ?_⟩
    exact Prod.ext rfl (Objects.setPipe_self ..).symm

theorem writesPipes_writeTo (host : Host) : WritesPipes Rely (writeTo host) where
  called h := (onHandle_ok h).2
  ends h := (Stays.of_ok (R := Objects.SameCounts) (onHandle_ok h).1).ends
  handle h := pipeWrite_among hrefl (onHandle_ok h).1
  nonblocking h := pipeWriteNonblocking_among hrefl (onHandle_ok h).1
  terminal h := by
    obtain ⟨-, hobjs⟩ := EStateM.Result.ok.inj (onHandle_ok h).1
    rw [← hobjs]
    exact hrefl _

end Alone

end IshGo.Kernel
