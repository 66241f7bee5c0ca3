/-
# `IshGo.I386.Access` — what an access to memory checks, and what it changes

Two facts about the table.  A range that passes `checkRange` lies, byte by byte, in
mappings with the permission (`checkRange_ok`); and a range whose addresses are each
looked up to such a mapping passes (`checkLoop_of_passes`).  Both hold of ANY table,
sorted or not; in a well-formed one the two conditions are the same.
-/
import IshGo.I386.Memory
import IshGo.Lib.Align
import IshGo.Lib.Turns

namespace IshGo.I386

open Lib Memory List

variable {a : AddressSpace} {bs : List U8} {m' : Memory} {i : Nat} {addr x : U32}
variable {bytes : List U8} {data : U32 → U8} {m : Memory} {prot : U8} {stop width : U32} {w : Nat}

/-! ## What a check has established -/

def AddressSpace.Allows (a : AddressSpace) (prot : U8) (x : U32) : Prop :=
  ∃ m ∈ a.mappings, m.Covers x ∧ m.prot &&& prot = prot

open AddressSpace

def AddressSpace.Passes (a : AddressSpace) (prot : U8) (x : U32) : Prop :=
  ∃ m, a.mappingAt x = some m ∧ m.prot &&& prot = prot

theorem of_guard_ok {c : Prop} [Decidable c] {e : SpaceError} {y : Except SpaceError Unit}
    (h : (if c then .error e else y) = .ok ()) : ¬ c ∧ y = .ok () := by
  split at h
  · cases h
  · exact ⟨‹_›, h⟩

namespace AddressSpace

theorem mappingAt_some {m : Mapping} (h : a.mappingAt x = some m) : m ∈ a.mappings ∧ m.Covers x := by
  exact ⟨mem_of_find?_eq_some h, by simpa using find?_some h⟩

theorem WellFormed.passes_iff (h : a.WellFormed) : a.Passes prot x ↔ a.Allows prot x := by
  constructor
  · rintro ⟨m, hm, hprot⟩
    obtain ⟨hmem, hcov⟩ := mappingAt_some hm
    exact ⟨m, hmem, hcov, hprot⟩
  · rintro ⟨m, hmem, hcov, hprot⟩
    exact ⟨m, h.mappingAt_iff.mpr ⟨hmem, hcov⟩, hprot⟩

/-- The loop, with fuel for the rest of the range.  What lies between the cursor and
the next cursor is covered by the mapping found in this turn. -/
theorem checkLoop_ok :
    ∀ {fuel : Nat} {cursor : U32}, stop.toNat - cursor.toNat ≤ fuel →
      a.checkLoop stop prot fuel cursor = .ok () →
      ∀ x, cursor ≤ x → x < stop → a.Allows prot x
  | 0, cursor, hfuel, _, x, hle, hlt => by bv_omega
  | fuel + 1, cursor, hfuel, h, x, hle, hlt => by
      have hcursor : cursor < stop := by bv_omega
      rw [checkLoop, if_pos hcursor] at h
      cases hat : a.mappingAt cursor with
      | none => rw [hat] at h; cases h
      | some m =>
        rw [hat] at h
        obtain ⟨hm, hcov⟩ := mappingAt_some hat
        obtain ⟨hprot, h⟩ := of_guard_ok h
        obtain ⟨hend, h⟩ := of_guard_ok h
        by_cases hx : x < m.endAddr
        · exact ⟨m, hm, ⟨BitVec.le_trans hcov.1 hle, hx⟩, not_not.mp hprot⟩
        · have hnext : m.endAddr < stop := by bv_omega
          rw [if_pos hnext] at h
          exact checkLoop_ok (by bv_omega) h x (by bv_omega) hlt

theorem checkRange_ok (h : a.checkRange addr width prot = .ok ())
    (hwidth : width ≠ 0) (hi : i < width.toNat) : a.Allows prot (addr + BitVec.ofNat 32 i) := by
  rw [checkRange, if_neg hwidth] at h
  obtain ⟨hfits, h⟩ := of_guard_ok h
  simp only [not_or] at hfits
  obtain ⟨h₁, h₂⟩ := hfits
  exact checkLoop_ok (by bv_omega) h _ (by bv_omega) (by bv_omega)

/-- The loop does not fail while every lookup finds the permission. -/
theorem checkLoop_of_passes :
    ∀ {fuel : Nat} {cursor : U32}, (∀ x, cursor ≤ x → x < stop → a.Passes prot x) →
      a.checkLoop stop prot fuel cursor = .ok ()
  | 0, _, _ => rfl
  | fuel + 1, cursor, h => by
      by_cases hcursor : cursor < stop
      · obtain ⟨m, hat, hprot⟩ := h cursor (BitVec.le_refl _) hcursor
        have hcov := (mappingAt_some hat).2
        have hend : ¬ m.endAddr ≤ cursor := BitVec.not_le.mpr hcov.2
        simp only [checkLoop, if_pos hcursor, hat, hprot, ne_eq, not_true, if_false, if_neg hend]
        refine checkLoop_of_passes fun x hx hlt => h x ?_ hlt
        have hcov₂ : cursor < m.endAddr := hcov.2
        split at hx <;> bv_omega
      · rw [checkLoop, if_neg hcursor]

theorem checkRange_of_passes (hfits : addr.toNat + width.toNat ≤ a.max.toNat)
    (h : ∀ x : U32, addr ≤ x → x.toNat < addr.toNat + width.toNat → a.Passes prot x) :
    a.checkRange addr width prot = .ok () := by
  unfold checkRange
  split
  · rfl
  · rw [if_neg (by bv_omega)]
    exact checkLoop_of_passes fun x hx hlt => h x hx (by bv_omega)

end AddressSpace

namespace Memory

theorem check_ok : m.check addr width = .ok () ↔ addr.toNat + width.toNat ≤ m.size.toNat := by
  unfold check
  split
  · refine iff_of_false (by simp) ?_
    bv_omega
  · refine iff_of_true rfl ?_
    bv_omega

theorem check_of_checkAccess (h : m.checkAccess addr width prot = .ok ()) : m.check addr width = .ok () := by
  unfold checkAccess at h
  split at h
  · cases h
  · assumption

theorem checkAccess_ok
    (h : m.checkAccess addr width prot = .ok ()) (hp : m.isProtected = true) (hi : i < width.toNat) :
    m.space.Allows prot (addr + BitVec.ofNat 32 i) := by
  unfold checkAccess at h
  split at h
  · cases h
  · have hwidth : width ≠ 0 := by bv_omega
    rw [if_neg (not_or.mpr ⟨by simp [hp], hwidth⟩)] at h
    exact checkRange_ok h hwidth hi

theorem checkAccess_one : m.checkAccess x 1 prot = .ok () ↔
      x < m.size ∧ (m.isProtected = true → x < m.space.max ∧ m.space.Passes prot x) := by
  have hcheck : m.check x 1 = .ok () ↔ x < m.size := by
    rw [check_ok]
    exact ⟨fun h => by bv_omega, fun h => by bv_omega⟩
  cases hc : m.check x 1 with
  | error e =>
    refine iff_of_false (fun h => ?_) (fun h => ?_)
    · rw [check_of_checkAccess h] at hc
      cases hc
    · rw [hcheck.mpr h.1] at hc
      cases hc
  | ok u =>
    have hx : x < m.size := hcheck.mp hc
    rw [checkAccess, hc]
    cases hp : m.isProtected with
    | false => simp [hx]
    | true =>
      simp only [Bool.true_eq_false, false_or, if_neg (show ¬ (1 : U32) = 0 by decide), hx,
        true_and, forall_const]
      constructor
      · intro h
        obtain ⟨hfits, h⟩ := of_guard_ok h
        rw [show (1 : U32).toNat = 0 + 1 from rfl, checkLoop, if_pos (by bv_omega)] at h
        refine ⟨by bv_omega, ?_⟩
        cases hat : m.space.mappingAt x with
        | none => rw [hat] at h; cases h
        | some n =>
          rw [hat] at h
          exact ⟨n, hat, not_not.mp (of_guard_ok h).1⟩
      · rintro ⟨hmax, hpass⟩
        refine checkRange_of_passes (by bv_omega) fun y h₁ h₂ => ?_
        obtain rfl : y = x := by bv_omega
        exact hpass

theorem checkAccess_of_bytes (hne : width ≠ 0) (hwrap : addr.toNat + width.toNat ≤ 2 ^ 32)
    (h : ∀ i < width.toNat, m.checkAccess (addr + BitVec.ofNat 32 i) 1 prot = .ok ()) :
    m.checkAccess addr width prot = .ok () := by
  have hbyte : ∀ x : U32, addr ≤ x → x.toNat < addr.toNat + width.toNat →
      m.checkAccess x 1 prot = .ok () := by
    intro x h₁ h₂
    have hx : x = addr + BitVec.ofNat 32 (x.toNat - addr.toNat) := by bv_omega
    rw [hx]
    exact h _ (by bv_omega)
  have hlast := checkAccess_one.mp (hbyte (addr + width - 1) (by bv_omega) (by bv_omega))
  have hcheck : m.check addr width = .ok () := check_ok.mpr (by bv_omega)
  rw [checkAccess, hcheck]
  dsimp only
  split
  · rfl
  rename_i hprot
  have hp : m.isProtected = true := by simpa using (not_or.mp hprot).1
  have hmax := (hlast.2 hp).1
  refine checkRange_of_passes (by bv_omega) fun x h₁ h₂ => ?_
  exact ((checkAccess_one.mp (hbyte x h₁ h₂)).2 hp).2

end Memory

/-! ## Runs of bytes -/

@[simp] theorem length_loadBytes (data : U32 → U8) : ∀ (n : Nat) (addr : U32),
    (loadBytes data addr n).length = n
  | 0, _ => rfl
  | n + 1, addr => by rw [loadBytes, length_cons, length_loadBytes data n]

theorem add_one_add_ofNat (addr : U32) (i : Nat) :
    addr + 1 + BitVec.ofNat 32 i = addr + BitVec.ofNat 32 (i + 1) := by
  rw [BitVec.ofNat_add, BitVec.add_assoc, BitVec.add_comm (BitVec.ofNat 32 i)]
  rfl

theorem loadBytes_congr {data' : U32 → U8} : ∀ {n : Nat} {addr : U32},
    (∀ i < n, data' (addr + BitVec.ofNat 32 i) = data (addr + BitVec.ofNat 32 i)) →
      loadBytes data' addr n = loadBytes data addr n
  | 0, _, _ => rfl
  | n + 1, addr, h => by
      have hhead : data' addr = data addr := by simpa using h 0 (Nat.zero_lt_succ n)
      rw [loadBytes, loadBytes, hhead, loadBytes_congr fun i hi => ?_]
      rw [add_one_add_ofNat]
      exact h (i + 1) (Nat.succ_lt_succ hi)

theorem getElem?_loadBytes (data : U32 → U8) : ∀ {n i : Nat} {addr : U32}, i < n →
    (loadBytes data addr n)[i]? = some (data (addr + BitVec.ofNat 32 i))
  | n + 1, 0, addr, _ => by simp [loadBytes]
  | n + 1, i + 1, addr, h => by
      rw [loadBytes, getElem?_cons_succ, getElem?_loadBytes data (Nat.lt_of_succ_lt_succ h),
        add_one_add_ofNat]

theorem storeBytes_append (data : U32 → U8) (bs cs : List U8) (addr : U32) :
    storeBytes data addr (bs ++ cs) =
      storeBytes (storeBytes data addr bs) (addr + BitVec.ofNat 32 bs.length) cs := by
  induction bs generalizing data addr with
  | nil => simp [storeBytes]
  | cons b bs ih => rw [cons_append, storeBytes, ih, add_one_add_ofNat]; rfl

/-- What a write leaves at an address: the byte written there, or the old one. -/
theorem storeBytes_apply (hlen : bs.length ≤ 2 ^ 32) (x : U32) :
    storeBytes data addr bs x = bs.getD (x - addr).toNat (data x) := by
  induction bs generalizing data addr with
  | nil => rfl
  | cons b bs ih =>
    rw [length_cons] at hlen
    rw [storeBytes, ih (by omega)]
    by_cases hx : x = addr
    · subst hx
      -- the distance to the next address wraps, and is no index of the rest
      have hwrap : bs.length ≤ (x - (x + 1)).toNat := by bv_omega
      rw [getD_eq_getElem?_getD, getElem?_eq_none hwrap, if_pos rfl, BitVec.sub_self]
      rfl
    · have hnext : (x - addr).toNat = (x - (addr + 1)).toNat + 1 := by bv_omega
      rw [if_neg hx, hnext, getD_cons_succ]

theorem storeBytes_inside (hlen : bs.length ≤ 2 ^ 32) (hx : (x - addr).toNat = i)
    (hi : i < bs.length) : some (storeBytes data addr bs x) = bs[i]? := by
  rw [storeBytes_apply hlen, hx, getD_eq_getElem?_getD, getElem?_eq_getElem hi, Option.getD_some]

theorem storeBytes_beyond (hlen : bs.length ≤ 2 ^ 32)
    (hx : bs.length ≤ (x - addr).toNat) : storeBytes data addr bs x = data x := by
  rw [storeBytes_apply hlen, getD_eq_getElem?_getD, getElem?_eq_none hx, Option.getD_none]

theorem storeBytes_of_outside (h : ∀ i < bs.length, x ≠ addr + BitVec.ofNat 32 i) :
    storeBytes data addr bs x = data x := by
  induction bs generalizing data addr with
  | nil => rfl
  | cons b bs ih =>
    have hhere : x ≠ addr := by simpa using h 0 (Nat.zero_lt_succ _)
    rw [storeBytes, ih fun i hi => ?_, if_neg hhere]
    rw [add_one_add_ofNat]
    exact h (i + 1) (Nat.succ_lt_succ hi)

theorem loadBytes_storeBytes
    (hlen : bs.length ≤ 2 ^ 32) : loadBytes (storeBytes data addr bs) addr bs.length = bs := by
  refine ext_getElem? fun i => ?_
  by_cases hi : i < bs.length
  · rw [getElem?_loadBytes _ hi]
    exact storeBytes_inside hlen (by bv_omega) hi
  · rw [getElem?_eq_none (by simpa using hi), getElem?_eq_none (by simpa using hi)]

/-! ## Numbers as bytes -/

@[simp] theorem length_leBytes : ∀ (n : Nat) (v : BitVec w), (leBytes v n).length = n
  | 0, _ => rfl
  | n + 1, v => by rw [leBytes, length_cons, length_leBytes n]

theorem getLsbD_leValue_leBytes : ∀ (n : Nat) (v : BitVec w) (i : Nat),
    (leValue w (leBytes v n)).getLsbD i = (decide (i < 8 * n) && v.getLsbD i)
  | 0, v, i => by simp [leBytes, leValue]
  | n + 1, v, i => by
      rw [leBytes, leValue, BitVec.getLsbD_or, BitVec.getLsbD_shiftLeft, BitVec.getLsbD_setWidth,
        BitVec.getLsbD_setWidth, getLsbD_leValue_leBytes n, BitVec.getLsbD_ushiftRight]
      by_cases hw : i < w
      · by_cases h8 : i < 8
        · simp [hw, h8, show i < 8 * (n + 1) by omega]
        · have hi : 8 + (i - 8) = i := by omega
          have hn : i - 8 < 8 * n ↔ i < 8 * (n + 1) := by omega
          simp [hw, h8, hi, hn]
      · simp [hw, BitVec.getLsbD_of_ge v i (by omega)]

theorem leValue_leBytes {n : Nat} (h : w ≤ 8 * n) (v : BitVec w) : leValue w (leBytes v n) = v := by
  refine BitVec.eq_of_getLsbD_eq fun i hi => ?_
  rw [getLsbD_leValue_leBytes, decide_eq_true (by omega), Bool.true_and]

/-! ## What an accessor does -/

namespace Memory

theorem readWith_ok {ok : Except SpaceError Unit} {width : Nat}
    (h : m.readWith ok addr width = .ok bs) : ok = .ok () ∧ bs = loadBytes m.data addr width := by
  unfold readWith at h
  split at h
  · cases h
  · cases h
    exact ⟨rfl, rfl⟩

def Readable (m : Memory) (addr : U32) (n : Nat) : Prop :=
  ∀ i < n, ∃ b, m.read8 (addr + BitVec.ofNat 32 i) = .ok b

theorem read8_ok {b : U8} (h : m.read8 x = .ok b) : m.checkAccess x 1 protRead = .ok () := by
  unfold read8 at h
  cases hr : m.readWith (m.checkAccess x 1 protRead) x 1 with
  | error e =>
    rw [hr] at h
    cases h
  | ok bs => exact (readWith_ok hr).1

theorem read32_of_readable (h : m.Readable addr 4) (hwrap : addr.toNat + 4 ≤ 2 ^ 32) :
    m.read32 addr = .ok (leValue 32 (loadBytes m.data addr 4)) := by
  have hok : m.checkAccess addr 4 protRead = .ok () := by
    refine checkAccess_of_bytes (by decide) hwrap fun i hi => ?_
    obtain ⟨b, hb⟩ := h i hi
    exact read8_ok hb
  rw [read32, hok]
  rfl

/-- A write that passes changes the bytes, and these only. -/
theorem writeBytes_eq (h : m.checkAccess addr (BitVec.ofNat 32 bytes.length) protWrite = .ok ())
    (hlen : bytes.length < 2 ^ 32) :
    m.writeBytes addr bytes = .ok { m with data := storeBytes m.data addr bytes } := by
  have hfits := check_ok.mp (check_of_checkAccess h)
  rw [toNat_ofNat_of_lt hlen] at hfits
  unfold writeBytes writeWith
  rw [h, take_of_length_le (by omega)]

theorem writeBytes_unprotected (hp : m.isProtected = false)
    (hfits : addr.toNat + bytes.length ≤ m.size.toNat) :
    m.writeBytes addr bytes = .ok { m with data := storeBytes m.data addr bytes } := by
  have hlen : bytes.length < 2 ^ 32 := by omega
  refine writeBytes_eq ?_ hlen
  have hcheck : m.check addr (BitVec.ofNat 32 bytes.length) = .ok () := by
    rw [check_ok, toNat_ofNat_of_lt hlen]
    exact hfits
  rw [checkAccess, hcheck]
  exact if_pos (Or.inl hp)

section
variable (h : m.writeBytes addr bytes = .ok m')
include h

theorem writeBytes_checked : m.checkAccess addr (BitVec.ofNat 32 bytes.length) protWrite = .ok () := by
  unfold writeBytes writeWith at h
  split at h
  · cases h
  · assumption

theorem writeBytes_fits (hlen : bytes.length < 2 ^ 32) : addr.toNat + bytes.length ≤ m.size.toNat := by
  have hfits := check_ok.mp (check_of_checkAccess (writeBytes_checked h))
  rw [toNat_ofNat_of_lt hlen] at hfits
  exact hfits

/-- Whatever is written, only bytes change. -/
theorem writeBytes_shape : m'.size = m.size ∧ m'.space = m.space ∧ m'.isProtected = m.isProtected := by
  unfold writeBytes writeWith at h
  split at h
  · cases h
  · cases h
    exact ⟨rfl, rfl, rfl⟩

theorem writeBytes_result
    (hlen : bytes.length < 2 ^ 32) : m' = { m with data := storeBytes m.data addr bytes } := by
  rw [writeBytes_eq (writeBytes_checked h) hlen] at h
  cases h
  rfl

/-- A write that passes changes bytes in ProtWrite mappings only. -/
theorem writeBytes_ok (hlen : bytes.length < 2 ^ 32) (hp : m.isProtected = true) :
    m'.isProtected = true ∧ m'.space = m.space ∧
      ∀ x, ¬ m.space.Allows protWrite x → m'.data x = m.data x := by
  have hok := writeBytes_checked h
  obtain rfl := writeBytes_result h hlen
  refine ⟨hp, rfl, fun x hx => storeBytes_of_outside fun i hi heq => hx ?_⟩
  rw [heq]
  refine checkAccess_ok hok hp ?_
  rw [toNat_ofNat_of_lt hlen]
  exact hi

end

end Memory

/-! ## Byte by byte -/

namespace AddressSpace

theorem WellFormed.checkRange_iff (h : a.WellFormed) (hwidth : width ≠ 0) :
    a.checkRange addr width prot = .ok () ↔ addr.toNat + width.toNat ≤ a.max.toNat ∧
      ∀ i < width.toNat, a.Allows prot (addr + BitVec.ofNat 32 i) := by
  constructor
  · intro hok
    refine ⟨?_, fun i hi => checkRange_ok hok hwidth hi⟩
    rw [checkRange, if_neg hwidth] at hok
    have hfits := (of_guard_ok hok).1
    bv_omega
  · rintro ⟨hfits, hall⟩
    refine checkRange_of_passes hfits fun x hle hlt => h.passes_iff.mpr ?_
    have hx := hall (x.toNat - addr.toNat) (by bv_omega)
    rwa [show addr + BitVec.ofNat 32 (x.toNat - addr.toNat) = x by bv_omega] at hx

/-- A turn of the loop of `checkRange`: the cursor goes to the end of the mapping it is in. -/
def checkTurn (a : AddressSpace) (stop : U32) (prot : U8) (cursor : U32) : Option U32 :=
  match a.mappingAt cursor with
  | none => none
  | some m =>
    if cursor < stop ∧ m.prot &&& prot = prot ∧ cursor < m.endAddr then
      some (if m.endAddr < stop then m.endAddr else stop)
    else none

/-- What the loop says when it ends with the cursor there. -/
def checkExit (a : AddressSpace) (stop : U32) (prot : U8) (cursor : U32) : Except SpaceError Unit :=
  if cursor < stop then
    match a.mappingAt cursor with
    | none => .error (.unmappedAccess cursor (stop - cursor))
    | some m =>
      if m.prot &&& prot ≠ prot then .error (.protectionFault cursor (stop - cursor) m.prot prot)
      else .error (.invalidMappingAt cursor)
  else .ok ()

theorem checkTurn_lt {cursor next : U32} (h : a.checkTurn stop prot cursor = some next) :
    cursor < stop ∧ cursor < next ∧ next ≤ stop := by
  unfold checkTurn at h
  split at h
  · cases h
  split at h
  · cases h
    rename_i hgoes
    refine ⟨hgoes.1, ?_, ?_⟩ <;> split <;> bv_omega
  · cases h

/-- The cursor loop, on any table: it ends within as many turns as the range has bytes. -/
theorem checkLoop_ends (n : Nat) : ∀ {cursor : U32}, stop.toNat - cursor.toNat ≤ n →
    Ends (a.checkTurn stop prot) (a.checkExit stop prot) n cursor (a.checkLoop stop prot n cursor) := by
  intro cursor hn
  refine ⟨?_, ?_⟩
  · refine runTurns_ends (P := fun _ => True) (μ := fun c => stop.toNat - c.toNat) ?_ n trivial hn
    intro c next _ h
    obtain ⟨h₁, h₂, -⟩ := checkTurn_lt h
    exact ⟨trivial, by bv_omega⟩
  induction n generalizing cursor with
  | zero =>
    have hge : ¬ cursor < stop := by bv_omega
    rw [runTurns, checkExit, if_neg hge]
    rfl
  | succ n ih =>
    cases hturn : a.checkTurn stop prot cursor with
    | some next =>
      obtain ⟨hlt, hnext, -⟩ := checkTurn_lt hturn
      rw [runTurns_some hturn, ← ih (by bv_omega)]
      unfold checkTurn at hturn
      cases hat : a.mappingAt cursor with
      | none =>
        rw [hat] at hturn
        cases hturn
      | some m =>
        rw [hat] at hturn
        dsimp only at hturn
        split at hturn
        · rename_i hgoes
          cases hturn
          simp only [checkLoop, if_pos hlt, hat, hgoes.2.1, ne_eq, not_true, if_false,
            if_neg (show ¬ m.endAddr ≤ cursor by bv_omega)]
        · cases hturn
    | none =>
      rw [runTurns_none hturn, checkLoop, checkExit]
      unfold checkTurn at hturn
      split
      · cases hat : a.mappingAt cursor with
        | none => rfl
        | some m =>
          rw [hat] at hturn
          dsimp only at hturn ⊢
          split
          · rfl
          · rename_i hlt hprot
            rw [if_pos]
            by_contra hend
            rw [if_pos ⟨hlt, not_not.mp hprot, by bv_omega⟩] at hturn
            cases hturn
      · rfl

end AddressSpace

namespace Memory

/-- The bytes are where they were written, and nothing else has changed. -/
structure Stores (m : Memory) (addr : U32) (bytes : List U8) (m' : Memory) : Prop where
  inside : ∀ i < bytes.length, some (m'.data (addr + BitVec.ofNat 32 i)) = bytes[i]?
  outside : ∀ x, (∀ i < bytes.length, x ≠ addr + BitVec.ofNat 32 i) → m'.data x = m.data x
  rest : { m' with data := m.data } = m
  load : loadBytes m'.data addr bytes.length = bytes

theorem stores_of_writeBytes (hlen : bytes.length < 2 ^ 32)
    (h : m.writeBytes addr bytes = .ok m') : m.Stores addr bytes m' := by
  obtain rfl := writeBytes_result h hlen
  refine ⟨fun i hi => storeBytes_inside (by omega) (by bv_omega) hi, fun x hx => storeBytes_of_outside hx, rfl, ?_⟩
  exact loadBytes_storeBytes (by omega)

/-- The access is inside of the memory and, if protection is on, every byte of it is in a mapping
with the permission. -/
def Permits (m : Memory) (prot : U8) (addr : U32) (n : Nat) : Prop :=
  addr.toNat + n ≤ m.size.toNat ∧ (m.isProtected = true → n ≠ 0 →
    addr.toNat + n ≤ m.space.max.toNat ∧ ∀ i < n, m.space.Allows prot (addr + BitVec.ofNat 32 i))

theorem checkAccess_iff (h : m.space.WellFormed) :
    m.checkAccess addr width prot = .ok () ↔ m.Permits prot addr width.toNat := by
  have hzero : width = 0 ↔ width.toNat = 0 := by
    constructor
    · rintro rfl
      rfl
    · intro hw
      exact BitVec.eq_of_toNat_eq hw
  unfold checkAccess Permits
  cases hcheck : m.check addr width with
  | error e =>
    refine iff_of_false nofun fun hp => ?_
    rw [check_ok.mpr hp.1] at hcheck
    cases hcheck
  | ok u =>
    rw [and_iff_right (check_ok.mp hcheck)]
    dsimp only
    split
    · rename_i hfree
      refine iff_of_true rfl fun hp hw => ?_
      rcases hfree with hfree | hfree
      · rw [hp] at hfree
        cases hfree
      · exact absurd (hzero.mp hfree) hw
    · rename_i hchecked
      rw [not_or, Bool.not_eq_false] at hchecked
      rw [h.checkRange_iff hchecked.2]
      exact ⟨fun hall _ _ => hall, fun hall => hall hchecked.1 fun hw => hchecked.2 (hzero.mpr hw)⟩

/-- What a write of these bytes owes: it is done exactly if it is permitted, it then stores the bytes
and nothing else, and a read there, if permitted, gives them back. -/
structure Writes (m : Memory) (addr : U32) (bytes : List U8) (result : Except SpaceError Memory)
    (reads : Memory → Prop) : Prop where
  done : (∃ m', result = .ok m') ↔ m.Permits protWrite addr bytes.length
  stores : ∀ m', result = .ok m' → m.Stores addr bytes m'
  back : ∀ m', result = .ok m' → m.Permits protRead addr bytes.length → reads m'

theorem writeBytes_writes (h : m.space.WellFormed) (hlen : bytes.length < 2 ^ 32) :
    m.Writes addr bytes (m.writeBytes addr bytes) fun m' =>
      m'.readBytes addr (BitVec.ofNat 32 bytes.length) = .ok bytes := by
  have hwidth : (BitVec.ofNat 32 bytes.length).toNat = bytes.length := toNat_ofNat_of_lt hlen
  refine ⟨?_, fun m' => stores_of_writeBytes hlen, fun m' hw hread => ?_⟩
  · rw [← hwidth, ← checkAccess_iff h]
    constructor
    · rintro ⟨m', hw⟩
      exact writeBytes_checked hw
    · intro hok
      rw [writeBytes, hok]
      exact ⟨_, rfl⟩
  · have hs := stores_of_writeBytes hlen hw
    obtain ⟨hsize, hspace, hprot⟩ := writeBytes_shape hw
    have hread' : m'.Permits protRead addr bytes.length := by
      unfold Permits
      rwa [hsize, hspace, hprot]
    rw [← hwidth, ← checkAccess_iff (hspace ▸ h)] at hread'
    rw [readBytes, hread', readWith, hwidth, hs.load]

/-- The same for a value in little-endian order. -/
theorem writes_value {n : Nat} {v : BitVec w} (hw : w ≤ 8 * n) (hn : n < 2 ^ 32)
    (h : m.space.WellFormed) :
    m.Writes addr (leBytes v n) (m.writeBytes addr (leBytes v n)) fun m' =>
      (m'.readWith (m'.checkAccess addr (BitVec.ofNat 32 n) protRead) addr n).map (leValue w) = .ok v := by
  have hlen : (leBytes v n).length < 2 ^ 32 := by rwa [length_leBytes]
  have hbytes : m.Writes addr _ _ _ := writeBytes_writes h hlen
  refine ⟨hbytes.done, hbytes.stores, fun m' hm' hread => ?_⟩
  have hback := hbytes.back m' hm' hread
  rw [readBytes, length_leBytes, toNat_ofNat_of_lt hn] at hback
  rw [hback]
  exact congrArg Except.ok (leValue_leBytes hw v)

end Memory

/-- **Every byte of an access is checked, and no other is changed.**  A range of a well-formed table
passes exactly if each of its bytes may be accessed, and on any table the cursor loop ends.  A write
is done exactly if it is permitted, stores its bytes and changes nothing else, and what is read there
afterwards is what was written.  All callers write less than 4 GiB. -/
theorem access_exact (a : AddressSpace) (m : Memory) (addr : U32) :
    (a.WellFormed → ∀ (width : U32) (prot : U8), width ≠ 0 →
      (a.checkRange addr width prot = .ok () ↔ addr.toNat + width.toNat ≤ a.max.toNat ∧
        ∀ i < width.toNat, a.Allows prot (addr + BitVec.ofNat 32 i))) ∧
    (∀ (stop : U32) (prot : U8) (n : Nat), stop.toNat - addr.toNat ≤ n →
      Ends (a.checkTurn stop prot) (a.checkExit stop prot) n addr (a.checkLoop stop prot n addr)) ∧
    (m.space.WellFormed →
      (∀ bytes, bytes.length < 2 ^ 32 → m.Writes addr bytes (m.writeBytes addr bytes) fun m' =>
        m'.readBytes addr (BitVec.ofNat 32 bytes.length) = .ok bytes) ∧
      (∀ v, m.Writes addr (leBytes v 1) (m.write8 addr v) fun m' => m'.read8 addr = .ok v) ∧
      (∀ v, m.Writes addr (leBytes v 2) (m.write16 addr v) fun m' => m'.read16 addr = .ok v) ∧
      ∀ v, m.Writes addr (leBytes v 4) (m.write32 addr v) fun m' => m'.read32 addr = .ok v) := by
  refine ⟨fun h width prot hwidth => h.checkRange_iff hwidth, fun stop prot n hn => checkLoop_ends n hn,
    fun h => ⟨fun bytes hlen => writeBytes_writes h hlen, fun v => ?_, fun v => ?_, fun v => ?_⟩⟩
  · exact writes_value (by decide) (by decide) h
  · exact writes_value (by decide) (by decide) h
  · exact writes_value (by decide) (by decide) h

end IshGo.I386
