/-
# `IshGo.Kernel.PipeStream` — a pipe loses, repeats and reorders nothing

Any number of calls on the handles of ONE pipe, in any interleaving.  A call is
begun, takes turns, and returns; a turn is one critical section (`Pipe.readTurn`
and its companions), so a `Write` of many bytes takes several, between which
other calls take theirs.  Handles are cloned and closed at any time, so the two
counts change at will.
-/
import IshGo.Kernel.Pipe
import Mathlib.Logic.Function.Basic
import Mathlib.Data.List.TakeDrop

namespace IshGo.Kernel.PipeStream

open I386 List

variable {len written : Nat} {t : Transfer}

/-- The four methods that move bytes, with what they are called with: a buffer of
so many bytes, or the bytes to write. -/
inductive Method where
  | read (len : Nat)
  | readNonblocking (len : Nat)
  | write (src : List U8)
  | writeNonblocking (src : List U8)
  deriving DecidableEq, Repr

structure Call where
  method : Method
  handle : PipeEnd
  deriving DecidableEq, Repr

variable {c : Call} {p p' : Pipe}

namespace Method

def isWrite : Method → Bool
  | .read _ | .readNonblocking _ => false
  | .write _ | .writeNonblocking _ => true

/-- `len(dst)` or `len(src)` -/
def size : Method → Nat
  | .read len | .readNonblocking len => len
  | .write src | .writeNonblocking src => src.length

def src : Method → List U8
  | .read _ | .readNonblocking _ => []
  | .write src | .writeNonblocking src => src

end Method

def Call.early (c : Call) : Option (Nat × Option IOErr) :=
  if c.handle.write ≠ c.method.isWrite then some (0, some .invalid)
  else if c.method.size = 0 then some (0, none)
  else none

/-- One critical section of a call of which `written` bytes have been accepted. -/
def Call.turn (c : Call) (written : Nat) (p : Pipe) : Pipe.Turn × List U8 × Pipe :=
  match c.method with
  | .read len => p.readTurn c.handle.nonblock len
  | .readNonblocking len =>
    let r := p.readNonblocking len
    (.ret r.1.count r.1.err, r.1.bytes, r.2)
  | .write src => p.writeTurn c.handle.nonblock src written
  | .writeNonblocking src =>
    let r := p.writeNonblocking src
    (.ret r.1.count r.1.err, r.1.bytes, r.2)

inductive Phase where
  | idle
  | active (c : Call) (written : Nat)
  | returned (c : Call) (n : Nat) (err : Option IOErr)
  deriving DecidableEq, Repr

/-- Bytes moved by the call `who`: into the buffer, or out of it. -/
structure Move (ι : Type) where
  who : ι
  isWrite : Bool
  bytes : List U8

structure State (ι : Type) where
  pipe : Pipe
  phase : ι → Phase
  moves : List (Move ι)

variable {ι : Type} [DecidableEq ι]

def init : State ι := { pipe := Pipe.new, phase := fun _ => .idle, moves := [] }

def Call.after (c : Call) (written : Nat) : Pipe.Turn → Phase
  | .ret n err => .returned c n err
  | .next n => .active c n
  | .wait => .active c written

def State.begin (s : State ι) (i : ι) (c : Call) : State ι :=
  { s with phase := Function.update s.phase i <|
      match c.early with
      | some (n, err) => .returned c n err
      | none => .active c 0 }

def State.turn (s : State ι) (i : ι) (c : Call) (written : Nat) : State ι :=
  let r := c.turn written s.pipe
  { pipe := r.2.2
    phase := Function.update s.phase i (c.after written r.1)
    moves := s.moves ++ [⟨i, c.method.isWrite, r.2.1⟩] }

inductive Step : State ι → State ι → Prop
  | begin {s : State ι} {i : ι} (c : Call) : s.phase i = .idle → Step s (s.begin i c)
  | turn {s : State ι} {i : ι} {c : Call} {written : Nat} : s.phase i = .active c written →
      Step s (s.turn i c written)
  | counts {s : State ι} (readers writers : Int) :
      Step s { s with pipe := { s.pipe with readers := readers, writers := writers } }

inductive Reach : State ι → Prop
  | init : Reach init
  | step {s t : State ι} : Reach s → Step s t → Reach t

/-! ## The history -/

def stream (isWrite : Bool) (ms : List (Move ι)) : List U8 :=
  (ms.filter (·.isWrite = isWrite)).flatMap (·.bytes)

def movedBy (i : ι) (ms : List (Move ι)) : List U8 := (ms.filter (·.who = i)).flatMap (·.bytes)

omit [DecidableEq ι] in
theorem stream_append (w : Bool) (ms : List (Move ι)) (m : Move ι) :
    stream w (ms ++ [m]) = stream w ms ++ if m.isWrite = w then m.bytes else [] := by
  unfold stream
  by_cases h : m.isWrite = w <;> simp [h]

theorem movedBy_append (i : ι) (ms : List (Move ι)) (m : Move ι) :
    movedBy i (ms ++ [m]) = movedBy i ms ++ if m.who = i then m.bytes else [] := by
  unfold movedBy
  by_cases h : m.who = i <;> simp [h]

/-! ## One turn -/

/-- What a turn does: the bytes it moves leave one place and enter the other, and the
number it counts is theirs. -/
structure TurnSpec (c : Call) (written : Nat) (p : Pipe) (turn : Pipe.Turn) (bytes : List U8)
    (p' : Pipe) : Prop where
  stored : c.method.isWrite = true → p'.data = p.data ++ bytes ∧ bytes <+: c.method.src.drop written
  taken : c.method.isWrite = false → p.data = bytes ++ p'.data
  bounded : p'.data.length ≤ pipeCapacity
  returned : ∀ n err, turn = .ret n err → n = written + bytes.length
  continued : ∀ n, turn = .next n → n = written + bytes.length ∧ ∃ src, c.method = .write src
  waiting : turn = .wait → bytes = []

theorem turnSpec_readSection (hc : c.method.isWrite = false)
    (hcap : p.data.length ≤ pipeCapacity) (h : p.readSection len = some (t, p')) :
    TurnSpec c 0 p (.ret t.count t.err) t.bytes p' := by
  obtain ⟨hdata, hcount, -⟩ := Pipe.readSection_takes h
  have hlen : p'.data.length ≤ pipeCapacity := by
    have := congrArg length hdata
    rw [length_append] at this
    omega
  refine ⟨fun hw => ?_, fun _ => hdata, hlen, fun n err hn => ?_, nofun, nofun⟩
  · rw [hc] at hw
    cases hw
  · cases hn
    omega

theorem turnSpec_still {turn : Pipe.Turn} (hcap : p.data.length ≤ pipeCapacity)
    (hret : ∀ n err, turn = .ret n err → n = written) (hnext : ∀ n, turn ≠ .next n) :
    TurnSpec c written p turn [] p :=
  ⟨fun _ => ⟨(append_nil _).symm, nil_prefix⟩, fun _ => rfl, hcap, hret,
    fun n hn => absurd hn (hnext n), fun _ => rfl⟩

theorem writeTurn_spec {src : List U8} (hc : c.method = .write src) (written : Nat)
    (hcap : p.data.length ≤ pipeCapacity) : let r := p.writeTurn c.handle.nonblock src written
    TurnSpec c written p r.1 r.2.1 r.2.2 := by
  intro r
  have hturn : p.writeTurn c.handle.nonblock src written = (r.1, r.2.1, r.2.2) := rfl
  obtain ⟨hdata, hbytes, hret, hnext, hwait, hroom⟩ := Pipe.writeTurn_appends hturn
  have hsrc : c.method.src = src := by rw [hc]; rfl
  refine ⟨fun _ => ⟨hdata, ?_⟩, fun hr => ?_, ?_, hret, fun n hn => ⟨hnext n hn, src, hc⟩, hwait⟩
  · rw [hsrc]
    exact prefix_iff_eq_take.mpr hbytes
  · rw [hc] at hr
    cases hr
  · rw [hdata, length_append]
    omega

theorem readTurn_spec (hc : c.method = .read len) (hcap : p.data.length ≤ pipeCapacity) :
    let r := p.readTurn c.handle.nonblock len
    TurnSpec c 0 p r.1 r.2.1 r.2.2 := by
  intro r
  cases hs : p.readSection len with
  | none =>
    have hr : r = (if c.handle.nonblock then .ret 0 (some .again) else .wait, [], p) := by
      show p.readTurn _ _ = _
      rw [Pipe.readTurn, hs]
    rw [hr]
    refine turnSpec_still hcap (fun n err hn => ?_) (fun n hn => ?_)
    · split at hn <;> cases hn
      rfl
    · split at hn <;> cases hn
  | some tp =>
    have hr : r = (.ret tp.1.count tp.1.err, tp.1.bytes, tp.2) := by
      show p.readTurn _ _ = _
      rw [Pipe.readTurn, hs]
    rw [hr]
    exact turnSpec_readSection (by rw [hc]; rfl) hcap hs

theorem once_spec {found : Option (Transfer × Pipe)}
    (hcap : p.data.length ≤ pipeCapacity) (h : found.getD (⟨0, some .wouldBlock, []⟩, p) = (t, p'))
    (hsome : found = some (t, p') → TurnSpec c 0 p (.ret t.count t.err) t.bytes p') :
    TurnSpec c 0 p (.ret t.count t.err) t.bytes p' := by
  cases found with
  | some tp => exact hsome (congrArg some h)
  | none =>
    cases h
    exact turnSpec_still hcap (fun n err hn => by cases hn; rfl) nofun

theorem Call.turn_spec (hcap : p.data.length ≤ pipeCapacity)
    (hloop : written ≠ 0 → ∃ src, c.method = .write src) : let r := c.turn written p
    TurnSpec c written p r.1 r.2.1 r.2.2 := by
  intro r
  have hzero : (∀ src, c.method ≠ .write src) → written = 0 := fun hne =>
    by_contra fun h0 => (hloop h0).elim hne
  cases hm : c.method with
  | read len =>
    have hr : r = p.readTurn c.handle.nonblock len := by show c.turn _ _ = _; rw [Call.turn, hm]
    rw [hzero (by rw [hm]; exact nofun), hr]
    exact readTurn_spec hm hcap
  | write src =>
    have hr : r = p.writeTurn c.handle.nonblock src written := by
      show c.turn _ _ = _; rw [Call.turn, hm]
    rw [hr]
    exact writeTurn_spec hm written hcap
  | readNonblocking len =>
    rcases hres : p.readNonblocking len with ⟨t, p'⟩
    have hr : r = (.ret t.count t.err, t.bytes, p') := by
      show c.turn _ _ = _; rw [Call.turn, hm]; dsimp only; rw [hres]
    rw [hzero (by rw [hm]; exact nofun), hr]
    exact once_spec hcap hres fun hs => turnSpec_readSection (by rw [hm]; rfl) hcap hs
  | writeNonblocking src =>
    rcases hres : p.writeNonblocking src with ⟨t, p'⟩
    have hr : r = (.ret t.count t.err, t.bytes, p') := by
      show c.turn _ _ = _; rw [Call.turn, hm]; dsimp only; rw [hres]
    rw [hzero (by rw [hm]; exact nofun), hr]
    refine once_spec hcap hres fun hs => ?_
    obtain ⟨hdata, hcount, hbytes, hroom, -⟩ := Pipe.writeSection_appends hs
    refine ⟨fun _ => ⟨hdata, ?_⟩, fun hr => ?_, ?_, fun n err hn => ?_, nofun, nofun⟩
    · rw [hm, hbytes]
      exact take_prefix ..
    · rw [hm] at hr
      cases hr
    · rw [hdata, length_append]
      omega
    · cases hn
      omega

/-! ## Whole runs -/

/-- The bytes a call has moved agree with its phase: it counts them, and those of a
write are the first bytes of its source. -/
def Accounts (ms : List U8) : Phase → Prop
  | .idle => ms = []
  | .active c written => written = ms.length ∧ ms <+: c.method.src ∧
      (written ≠ 0 → ∃ src, c.method = .write src)
  | .returned c n _ => n = ms.length ∧ (c.method.isWrite = true → ms <+: c.method.src)

structure Inv (s : State ι) : Prop where
  balanced : stream false s.moves ++ s.pipe.data = stream true s.moves
  bounded : s.pipe.data.length ≤ pipeCapacity
  accounts : ∀ i, Accounts (movedBy i s.moves) (s.phase i)

theorem inv_init : Inv (init : State ι) := ⟨rfl, Nat.zero_le _, fun _ => rfl⟩

theorem accounts_begin (c : Call) :
    Accounts [] (match c.early with
      | some (n, err) => .returned c n err
      | none => .active c 0) := by
  cases he : c.early with
  | some r =>
    unfold Call.early at he
    split at he
    · cases he
      exact ⟨rfl, fun _ => nil_prefix⟩
    · split at he <;> cases he
      exact ⟨rfl, fun _ => nil_prefix⟩
  | none =>
    exact ⟨rfl, nil_prefix, fun h => absurd rfl h⟩

theorem inv_begin {s : State ι} (h : Inv s) {i : ι} (c : Call) (hi : s.phase i = .idle) :
    Inv (s.begin i c) := by
  refine ⟨h.balanced, h.bounded, fun j => ?_⟩
  show Accounts (movedBy j s.moves) (Function.update s.phase i _ j)
  by_cases hj : j = i
  · subst hj
    have hnil := h.accounts j
    rw [hi] at hnil
    rw [Function.update_self, show movedBy j s.moves = [] from hnil]
    exact accounts_begin c
  · rw [Function.update_of_ne hj]
    exact h.accounts j

theorem append_prefix_of_drop {α : Type} {xs ys bs : List α} (h : xs <+: ys)
    (hb : bs <+: ys.drop xs.length) : xs ++ bs <+: ys := by
  obtain ⟨zs, rfl⟩ := h
  rw [drop_left] at hb
  exact (prefix_append_right_inj xs).mpr hb

theorem accounts_turn {ms bytes : List U8} {turn : Pipe.Turn}
    (h : Accounts ms (.active c ms.length)) (hspec : TurnSpec c ms.length p turn bytes p') :
    Accounts (ms ++ bytes) (c.after ms.length turn) := by
  obtain ⟨_, hpre, _⟩ := id h
  have hbytes : c.method.isWrite = true → ms ++ bytes <+: c.method.src := fun hw =>
    append_prefix_of_drop hpre (hspec.stored hw).2
  cases turn with
  | ret n err =>
    refine ⟨?_, hbytes⟩
    rw [hspec.returned n err rfl, length_append]
  | next n =>
    obtain ⟨hn, src, hsrc⟩ := hspec.continued n rfl
    rw [← length_append] at hn
    exact ⟨hn, hbytes (by rw [hsrc]; rfl), fun _ => ⟨src, hsrc⟩⟩
  | wait =>
    rw [hspec.waiting rfl, append_nil]
    exact h

theorem inv_turn {s : State ι} (h : Inv s) {i : ι}
    (hi : s.phase i = .active c written) : Inv (s.turn i c written) := by
  have hacc := h.accounts i
  rw [hi] at hacc
  obtain ⟨hw, _, hloop⟩ := id hacc
  have hspec := Call.turn_spec h.bounded hloop
  have hbal := h.balanced
  refine ⟨?_, hspec.bounded, fun j => ?_⟩
  · show stream false (s.moves ++ [⟨i, c.method.isWrite, (c.turn written s.pipe).2.1⟩]) ++
      (c.turn written s.pipe).2.2.data = stream true (s.moves ++ [⟨i, c.method.isWrite, _⟩])
    rw [stream_append, stream_append]
    cases hm : c.method.isWrite with
    | true =>
      rw [if_neg (by simp), if_pos rfl, append_nil, (hspec.stored hm).1,
        ← append_assoc, hbal]
    | false =>
      rw [if_pos rfl, if_neg (by simp), append_nil, append_assoc, ← hspec.taken hm, hbal]
  show Accounts (movedBy j (s.moves ++ [_])) (Function.update s.phase i _ j)
  rw [movedBy_append]
  by_cases hj : j = i
  · subst hj
    rw [if_pos rfl, Function.update_self]
    subst hw
    exact accounts_turn hacc hspec
  · rw [if_neg (Ne.symm hj), append_nil, Function.update_of_ne hj]
    exact h.accounts j

theorem inv_step {s t : State ι} (h : Inv s) : Step s t → Inv t
  | .begin c hi => inv_begin h c hi
  | .turn hi => inv_turn h hi
  | .counts _ _ => ⟨h.balanced, h.bounded, h.accounts⟩

theorem Reach.inv {s : State ι} (h : Reach s) : Inv s := by
  induction h with
  | init => exact inv_init
  | step _ hstep ih => exact inv_step ih hstep

/-- **Stream integrity.**  In every state of every interleaving: what the reads have
taken, followed by what is buffered, is what the writes have stored; the buffer is
within its capacity; and a call that has returned has returned the number of bytes
it moved, whatever error came with it, those of a write being the first bytes of its
source. -/
theorem pipe_stream_integrity {s : State ι} (h : Reach s) :
    stream false s.moves ++ s.pipe.data = stream true s.moves ∧
      s.pipe.data.length ≤ 65536 ∧
      ∀ i c n err, s.phase i = .returned c n err →
        n = (movedBy i s.moves).length ∧
          (c.method.isWrite = true → movedBy i s.moves = c.method.src.take n) := by
  have hinv := h.inv
  refine ⟨hinv.balanced, hinv.bounded, fun i c n err hi => ?_⟩
  have hacc := hinv.accounts i
  rw [hi] at hacc
  refine ⟨hacc.1, fun hw => ?_⟩
  rw [hacc.1]
  exact prefix_iff_eq_take.mp (hacc.2 hw)

/-- A write of three bytes and a read of two, one call after the other. -/
def threeThenTwo : State Bool :=
  let w : Call := ⟨.write [1, 2, 3], ⟨0, true, false, false⟩⟩
  let r : Call := ⟨.read 2, ⟨0, false, false, false⟩⟩
  (((init.begin true w).turn true w 0).begin false r).turn false r 0

theorem threeThenTwo_reach : Reach threeThenTwo :=
  .step (.step (.step (.step .init (.begin _ rfl)) (.turn rfl)) (.begin _ rfl)) (.turn rfl)

theorem pipe_stream_integrity_threeThenTwo :
    (threeThenTwo.phase false = .returned ⟨.read 2, ⟨0, false, false, false⟩⟩ 2 none ∧
      threeThenTwo.pipe.data = [3]) ∧
    stream false threeThenTwo.moves ++ threeThenTwo.pipe.data = stream true threeThenTwo.moves ∧
      threeThenTwo.pipe.data.length ≤ 65536 ∧
      ∀ i c n err, threeThenTwo.phase i = .returned c n err →
        n = (movedBy i threeThenTwo.moves).length ∧
          (c.method.isWrite = true → movedBy i threeThenTwo.moves = c.method.src.take n) :=
  ⟨by decide, pipe_stream_integrity threeThenTwo_reach⟩

end IshGo.Kernel.PipeStream
