/-
# `IshGo.Kernel.Pipe` — the pipe buffer

`pipeBuffer` and `pipeHandle` of `internal/kernel/handles.go`.  Every access to the
buffer is made under its mutex, and each such section is one function here:
`readSection`, `writeSection`.  A section that finds nothing to do gives `none`;
what happens then (an error, or waiting and another turn) depends on the method
that runs it.
-/
import IshGo.I386.AddressSpace

namespace IshGo.Kernel

open I386 List

def pipeCapacity : Nat := 64 * 1024

inductive IOErr where
  | eof
  | again
  | wouldBlock
  | brokenPipe
  | invalid
  | permission
  | closed
  | canceled
  | deadlineExceeded
  | badFileDescriptor
  | notExist
  | other
  deriving DecidableEq, Repr

structure Pipe where
  data : List U8
  readers : Int
  writers : Int
  deriving DecidableEq, Repr

structure Transfer where
  count : Nat
  err : Option IOErr
  bytes : List U8
  deriving DecidableEq, Repr

namespace Pipe

/-- The buffer made by `newPipePair`. -/
def new : Pipe := { data := [], readers := 1, writers := 1 }

/-- The section of a read into a buffer of `len` bytes: `copy`, then `data[n:]`. -/
def readSection (p : Pipe) (len : Nat) : Option (Transfer × Pipe) :=
  if p.data.length > 0 then
    let n := min len p.data.length
    some (⟨n, none, p.data.take len⟩, { p with data := p.data.drop n })
  else if p.writers = 0 then some (⟨0, some .eof, []⟩, p)
  else none

/-- The section of a write of what is left of its bytes.  The buffer never exceeds
its capacity, so the space is not negative. -/
def writeSection (p : Pipe) (src : List U8) : Option (Transfer × Pipe) :=
  if p.readers = 0 then some (⟨0, some .brokenPipe, []⟩, p)
  else
    let space := pipeCapacity - p.data.length
    if space = 0 then none
    else
      let n := if src.length > space then space else src.length
      some (⟨n, none, src.take n⟩, { p with data := p.data ++ src.take n })

/-- How a turn of a call ends: with its result, with the number of bytes it has
accepted so far, to go on, or by waiting to be woken. -/
inductive Turn where
  | ret (n : Nat) (err : Option IOErr)
  | next (written : Nat)
  | wait
  deriving DecidableEq, Repr

/-- A turn of the loop of `Read`. -/
def readTurn (p : Pipe) (nonblock : Bool) (len : Nat) : Turn × List U8 × Pipe :=
  match p.readSection len with
  | some (t, p') => (.ret t.count t.err, t.bytes, p')
  | none => (if nonblock then .ret 0 (some .again) else .wait, [], p)

def readNonblocking (p : Pipe) (len : Nat) : Transfer × Pipe :=
  (p.readSection len).getD (⟨0, some .wouldBlock, []⟩, p)

/-- A turn of the loop of `Write`, of which `written` bytes have been accepted. -/
def writeTurn (p : Pipe) (nonblock : Bool) (src : List U8) (written : Nat) :
    Turn × List U8 × Pipe :=
  match p.writeSection (src.drop written) with
  | some (t, p') =>
    if t.err.isSome then (.ret written t.err, t.bytes, p')
    else if written + t.count < src.length then (.next (written + t.count), t.bytes, p')
    else (.ret (written + t.count) none, t.bytes, p')
  | none => (if nonblock then .ret written (some .again) else .wait, [], p)

def writeNonblocking (p : Pipe) (src : List U8) : Transfer × Pipe :=
  (p.writeSection src).getD (⟨0, some .wouldBlock, []⟩, p)

end Pipe

/-- A `pipeHandle`; `pipe` stands for the pointer to the buffer. -/
structure PipeEnd where
  pipe : Nat
  write : Bool
  nonblock : Bool
  closed : Bool
  deriving DecidableEq, Repr

/-! ## What a section moves -/

theorem take_append_drop_min (xs : List U8) (n : Nat) : xs.take n ++ xs.drop (min n xs.length) = xs := by
  rcases Nat.le_total n xs.length with hle | hle
  · rw [Nat.min_eq_left hle, take_append_drop]
  · rw [Nat.min_eq_right hle, drop_length, take_of_length_le hle, append_nil]

namespace Pipe

variable {p p' : Pipe} {src : List U8} {t : Transfer}

theorem readSection_takes {len : Nat} (h : p.readSection len = some (t, p')) :
    p.data = t.bytes ++ p'.data ∧ t.count = t.bytes.length ∧ (t.err ≠ none → t.bytes = []) := by
  unfold readSection at h
  split at h
  · cases h
    refine ⟨?_, (length_take ..).symm, fun herr => absurd rfl herr⟩
    exact (take_append_drop_min ..).symm
  split at h
  · cases h
    exact ⟨rfl, rfl, fun _ => rfl⟩
  · cases h

/-- The ends stay open, and the only error is the end of the file. -/
theorem readSection_ends {len : Nat} (h : p.readSection len = some (t, p')) :
    (p'.readers = p.readers ∧ p'.writers = p.writers) ∧ ∀ e, t.err = some e → e = .eof ∧ p.writers = 0 := by
  unfold readSection at h
  split at h
  · cases h
    exact ⟨⟨rfl, rfl⟩, nofun⟩
  split at h
  · cases h
    exact ⟨⟨rfl, rfl⟩, fun e he => ⟨(Option.some.inj he).symm, ‹_›⟩⟩
  · cases h

theorem writeSection_ends (h : p.writeSection src = some (t, p')) :
    (p'.readers = p.readers ∧ p'.writers = p.writers) ∧ ∀ e, t.err = some e → e = .brokenPipe ∧ p.readers = 0 := by
  unfold writeSection at h
  split at h
  · cases h
    exact ⟨⟨rfl, rfl⟩, fun e he => ⟨(Option.some.inj he).symm, ‹_›⟩⟩
  dsimp only at h
  split at h
  · cases h
  · cases h
    exact ⟨⟨rfl, rfl⟩, nofun⟩

/-- The bytes are the first of the source, and go to the end of the buffer. -/
theorem writeSection_appends (h : p.writeSection src = some (t, p')) :
    p'.data = p.data ++ t.bytes ∧ t.count = t.bytes.length ∧ t.bytes = src.take t.count ∧
      t.count ≤ pipeCapacity - p.data.length ∧ (t.err ≠ none → t.bytes = []) := by
  unfold writeSection at h
  split at h
  · cases h
    exact ⟨(append_nil _).symm, rfl, rfl, Nat.zero_le _, fun _ => rfl⟩
  dsimp only at h
  split at h
  · cases h
  cases h
  have hle : (if src.length > pipeCapacity - p.data.length then pipeCapacity - p.data.length
      else src.length) ≤ src.length := by split <;> omega
  refine ⟨rfl, (length_take_of_le hle).symm, rfl, ?_, fun herr => absurd rfl herr⟩
  show (if src.length > pipeCapacity - p.data.length then pipeCapacity - p.data.length
    else src.length) ≤ pipeCapacity - p.data.length
  split <;> omega

theorem writeTurn_appends {nonblock : Bool} {written : Nat} {turn : Turn} {bytes : List U8}
    (h : p.writeTurn nonblock src written = (turn, bytes, p')) :
    p'.data = p.data ++ bytes ∧ bytes = (src.drop written).take bytes.length ∧
      (∀ n err, turn = .ret n err → n = written + bytes.length) ∧
      (∀ n, turn = .next n → n = written + bytes.length) ∧ (turn = .wait → bytes = []) ∧
      bytes.length ≤ pipeCapacity - p.data.length := by
  unfold writeTurn at h
  cases hs : p.writeSection (src.drop written) with
  | none =>
    rw [hs] at h
    cases h
    refine ⟨(append_nil _).symm, rfl, fun n err hn => ?_, fun n hn => ?_, fun _ => rfl, Nat.zero_le _⟩
    · split at hn
      · cases hn
        rfl
      · cases hn
    · split at hn <;> cases hn
  | some tp =>
    obtain ⟨t, q⟩ := tp
    obtain ⟨hdata, hcount, hbytes, hroom, herr⟩ := writeSection_appends hs
    rw [hs] at h
    dsimp only at h
    rw [hcount] at hbytes hroom
    split at h
    · rename_i hsome
      cases h
      have hnil := herr (Option.isSome_iff_ne_none.mp hsome)
      refine ⟨hdata, hbytes, fun n err hn => ?_, nofun, nofun, hroom⟩
      cases hn
      rw [hnil]
      rfl
    split at h
    · cases h
      refine ⟨hdata, hbytes, nofun, fun n hn => ?_, nofun, hroom⟩
      cases hn
      rw [hcount]
    cases h
    refine ⟨hdata, hbytes, fun n err hn => ?_, nofun, nofun, hroom⟩
    cases hn
    rw [hcount]

end Pipe

end IshGo.Kernel
