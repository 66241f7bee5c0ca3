/-
# `IshGo.I386.Loops` — every loop of a step ends

The loops of `CPU.Step`, each given by its turn and by what it gives in the end.  `Ends` says that
the loop comes to its end by itself within the number of turns, and that the function the step
calls gives the loop's result: the fuel of `prefixLoop`, `bsfLoop`, `parityLoop` and `checkLoop` is
never used up.  The bound of the prefix loop is the number of bytes from EIP to the end of memory.
-/
import IshGo.I386.Access
import IshGo.I386.Step

namespace IshGo.I386

open Lib

/-! ## The turns -/

/-- A byte that is a prefix, fetched. -/
def prefixTurn (a : Prefixes × Machine) : Option (Prefixes × Machine) :=
  match fetch8 a.2 with
  | .error _ _ => none
  | .ok op s =>
    match prefixByte op a.1 s with
    | .ok (some p) s' => some (p, s')
    | .ok none _ | .error _ _ => none

/-- The byte after the prefixes is the opcode, if it can be fetched. -/
def prefixExit (a : Prefixes × Machine) : EStateM.Result Fault Machine (U8 × Prefixes) :=
  (do let op ← fetch8
      let _ ← prefixByte op a.1
      return (op, a.1) : CpuM _) a.2

/-- `b &= b - 1`, and a count. -/
def parityTurn (a : U8 × Nat) : Option (U8 × Nat) :=
  if a.1 ≠ 0 then some (a.1 &&& (a.1 - 1), a.2 + 1) else none

def bsfTurn (a : U32 × U32) : Option (U32 × U32) :=
  if a.1 &&& 1 = 0 then some (a.1 >>> 1, a.2 + 1) else none

def bsrTurn (value : U32) (index : Nat) : Option Nat :=
  if index ≠ 0 ∧ value &&& (1 <<< index) = 0 then some (index - 1) else none

/-- A turn of REP MOVS or REP STOS, with the number of turns before it.  A fault ends the loop. -/
def repTurn (body : CpuM Unit) (count : Nat) :
    Nat × EStateM.Result Fault Machine Unit → Option (Nat × EStateM.Result Fault Machine Unit)
  | (i, .ok () s) => if i < count then some (i + 1, body s) else none
  | (_, .error _ _) => none

def movsTurn (op : U8) (step : U32) : CpuM Unit := do
  movsUnit op
  advance ESI step
  advance EDI step

def stosTurn (op : U8) (step : U32) : CpuM Unit := do
  stosUnit op
  advance EDI step

/-! ## The loops -/

theorem prefixTurn_lt {a b : Prefixes × Machine} (h : prefixTurn a = some b) :
    b.2.mem.size.toNat - b.2.eip.toNat < a.2.mem.size.toNat - a.2.eip.toNat := by
  unfold prefixTurn at h
  split at h
  · cases h
  rename_i op s hfetch
  split at h
  · rename_i p s' hbyte
    cases h
    obtain ⟨hlt, heip, hmem⟩ := fetch8_ok hfetch
    obtain ⟨heip', hmem'⟩ := prefixByte_ok hbyte
    rw [hmem', hmem, heip', heip]
    bv_omega
  · cases h
  · cases h

/-- One round of the recursion is a turn, or the exit. -/
theorem prefixLoop_succ (n : Nat) (a : Prefixes × Machine) :
    prefixLoop (n + 1) a.1 a.2 =
      match prefixTurn a with
      | some b => prefixLoop n b.1 b.2
      | none => prefixExit a := by
  rw [prefixLoop, prefixTurn, prefixExit]
  cases hfetch : fetch8 a.2 with
  | error e s => rw [bind_of_error hfetch, bind_of_error hfetch]
  | ok op s =>
    rw [bind_of_ok hfetch, bind_of_ok hfetch]
    dsimp only
    cases hbyte : prefixByte op a.1 s with
    | error e s' => rw [bind_of_error hbyte, bind_of_error hbyte]
    | ok next s' =>
      rw [bind_of_ok hbyte, bind_of_ok hbyte]
      cases next <;> rfl

theorem prefixLoop_ends (n : Nat) : ∀ {a : Prefixes × Machine},
    a.2.mem.size.toNat - a.2.eip.toNat ≤ n → Ends prefixTurn prefixExit n a (prefixLoop (n + 1) a.1 a.2) := by
  intro a hn
  refine ⟨?_, ?_⟩
  · refine runTurns_ends (P := fun _ => True) (μ := fun a => a.2.mem.size.toNat - a.2.eip.toNat) ?_ n trivial hn
    intro a b _ h
    exact ⟨trivial, prefixTurn_lt h⟩
  induction n generalizing a with
  | zero =>
    rw [prefixLoop_succ]
    cases hturn : prefixTurn a with
    | none => rw [runTurns]
    | some b =>
      have hlt := prefixTurn_lt hturn
      omega
  | succ n ih =>
    rw [prefixLoop_succ]
    cases hturn : prefixTurn a with
    | none => rw [runTurns_none hturn]
    | some b =>
      have hlt := prefixTurn_lt hturn
      rw [runTurns_some hturn]
      exact ih (by omega)

theorem parityLoop_eq (n : Nat) : ∀ b count,
    parityLoop n b count = (runTurns parityTurn n (b, count)).2 := by
  induction n with
  | zero => exact fun _ _ => rfl
  | succ n ih =>
    intro b count
    rw [parityLoop, runTurns, parityTurn]
    split
    · exact ih _ _
    · rfl

/-- Every turn clears a bit. -/
theorem parityLoop_ends (b : U8) : Ends parityTurn Prod.snd 8 (b, 0) (parityLoop 8 b 0) := by
  have hbits : ∀ b : U8, b ≠ 0 → parityLoop 8 (b &&& (b - 1)) 0 < parityLoop 8 b 0 := by decide +kernel
  have hbyte : ∀ b : U8, parityLoop 8 b 0 ≤ 8 := by decide +kernel
  refine ⟨?_, parityLoop_eq 8 b 0⟩
  refine runTurns_ends (P := fun _ => True) (μ := fun a => parityLoop 8 a.1 0) ?_ 8 trivial (hbyte b)
  intro a c _ h
  unfold parityTurn at h
  split at h
  · cases h
    exact ⟨trivial, hbits _ ‹_›⟩
  · cases h

theorem bsfLoop_eq (n : Nat) : ∀ value index,
    bsfLoop n value index = (runTurns bsfTurn n (value, index)).2 := by
  induction n with
  | zero => exact fun _ _ => rfl
  | succ n ih =>
    intro value index
    rw [bsfLoop, runTurns, bsfTurn]
    split
    · exact ih _ _
    · rfl

/-- A value that is not zero is halved as long as it is even, and never becomes zero. -/
theorem bsfLoop_ends {value : U32} (hvalue : value ≠ 0) :
    Ends bsfTurn Prod.snd 32 (value, 0) (bsfLoop 32 value 0) := by
  refine ⟨?_, bsfLoop_eq 32 value 0⟩
  have hpos : value.toNat ≠ 0 := fun h => hvalue (BitVec.eq_of_toNat_eq h)
  refine runTurns_ends (P := fun a => a.1.toNat ≠ 0) (μ := fun a => a.1.toNat.log2) ?_ 32 hpos
    (Nat.le_of_lt ((Nat.log2_lt hpos).mpr value.isLt))
  intro a b ha h
  unfold bsfTurn at h
  split at h
  · rename_i heven
    cases h
    have hmod : a.1.toNat % 2 = 0 := by
      have := congrArg BitVec.toNat heven
      rwa [BitVec.toNat_and, show (1 : U32).toNat = 1 from rfl, Nat.and_one_is_mod] at this
    have hhalf : (a.1 >>> 1).toNat = a.1.toNat / 2 := by
      rw [BitVec.toNat_ushiftRight, Nat.shiftRight_eq_div_pow]
    refine ⟨by rw [hhalf]; omega, ?_⟩
    rw [hhalf, Nat.log2_def a.1.toNat, if_pos (by omega)]
    exact Nat.lt_succ_self _
  · cases h

theorem bsrLoop_ends (value : U32) (n : Nat) : Ends (bsrTurn value) id n n (bsrLoop value n) := by
  induction n with
  | zero => exact ⟨rfl, rfl⟩
  | succ n ih =>
    by_cases hbit : value &&& (1 <<< (n + 1)) = 0
    · have hturn : bsrTurn value (n + 1) = some n := if_pos ⟨Nat.succ_ne_zero n, hbit⟩
      rw [Ends, runTurns_some hturn, bsrLoop, if_pos hbit]
      exact ih
    · have hturn : bsrTurn value (n + 1) = none := if_neg fun h => hbit h.2
      rw [Ends, runTurns_none hturn, bsrLoop, if_neg hbit]
      exact ⟨hturn, rfl⟩

/-- A loop that runs its body a number of times. -/
theorem repLoop_ends {body : CpuM Unit} {loop : Nat → CpuM Unit} (hzero : loop 0 = pure ())
    (hsucc : ∀ n, loop (n + 1) = body >>= fun _ => loop n) (count : Nat) (s : Machine) :
    Ends (repTurn body count) Prod.snd count (0, .ok () s) (loop count s) := by
  have hturn : ∀ {a b}, repTurn body count a = some b → a.1 < count ∧ b.1 = a.1 + 1 := by
    rintro ⟨i, r⟩ b h
    cases r with
    | error e t => cases h
    | ok u t =>
      rw [repTurn] at h
      split at h
      · cases h
        exact ⟨‹_›, rfl⟩
      · cases h
  refine ⟨?_, ?_⟩
  · refine runTurns_ends (P := fun _ => True) (μ := fun a => count - a.1) ?_ count trivial (Nat.sub_le ..)
    intro a b _ h
    obtain ⟨hlt, hnext⟩ := hturn h
    exact ⟨trivial, by omega⟩
  -- by induction on the turns that are left
  have hrest : ∀ n i s, i + n = count →
      loop n s = (runTurns (repTurn body count) n (i, .ok () s)).2 := by
    intro n
    induction n with
    | zero =>
      intro i s _
      rw [hzero]
      rfl
    | succ n ih =>
      intro i s hi
      have hgoes : repTurn body count (i, .ok () s) = some (i + 1, body s) := if_pos (by omega)
      rw [hsucc, runTurns_some hgoes]
      cases hbody : body s with
      | ok u t =>
        rw [bind_of_ok hbody]
        exact ih (i + 1) t (by omega)
      | error e t =>
        rw [bind_of_error hbody, runTurns_none rfl]
  exact hrest count 0 s (Nat.zero_add _)

end IshGo.I386
