/-
# `IshGo.Kernel.SignalFrame` — what the return from a handler restores

`DeliverSignal` writes the interrupted context out as 42 words side by side, and
`rt_sigreturn` reads them back from offsets of its own.  Proved here: the two agree, so
that a handler that leaves its frame alone comes back to exactly the context that was
interrupted (`sigreturn_restores`).
-/
import IshGo.I386.FpuStack
import IshGo.Kernel.Signals

namespace IshGo.Kernel

open I386 List

variable {base : U32} {mem : Memory} {p : Pending} {s s' : KState} {signal : Nat}
variable {action : SignalAction} {addr : U32} {m : Memory} {n : Nat} {words : List U32}

/-! ## Words side by side -/

def wordBytes (words : List U32) : List U8 := words.flatMap (leBytes · 4)

/-- Words with their offsets, from word number `k` on. -/
def sideBySide (k : Nat) (words : List U32) : List (U32 × U32) :=
  (words.zipIdx k).map fun w => (BitVec.ofNat 32 (4 * w.2), w.1)

theorem length_wordBytes (words : List U32) : (wordBytes words).length = 4 * words.length := by
  induction words with
  | nil => rfl
  | cons v words ih =>
    rw [wordBytes, flatMap_cons, length_append, length_leBytes, length_cons]
    have : (words.flatMap (leBytes · 4)).length = 4 * words.length := ih
    omega

theorem getD_wordBytes {i j : Nat} (hi : i < words.length) (hj : j < 4) (d : U8) :
    (wordBytes words).getD (4 * i + j) d = (leBytes (words.getD i 0) 4).getD j d := by
  induction words generalizing i with
  | nil => exact absurd hi (Nat.not_lt_zero i)
  | cons v words ih =>
    have hsplit : wordBytes (v :: words) = leBytes v 4 ++ wordBytes words := rfl
    rw [hsplit, getD_eq_getElem?_getD, getElem?_append, length_leBytes]
    cases i with
    | zero => simp [hj, getD_eq_getElem?_getD]
    | succ i =>
      have hoff : 4 * (i + 1) + j - 4 = 4 * i + j := by omega
      rw [if_neg (by omega), hoff, ← getD_eq_getElem?_getD,
        ih (Nat.lt_of_succ_lt_succ hi), getD_cons_succ]

theorem write32_ok {m' : Memory} {v : U32} (h : m.write32 addr v = .ok m') :
    m' = { m with data := storeBytes m.data addr (leBytes v 4) } :=
  Memory.writeBytes_result h (by simp)

theorem writeWords_sideBySide (base : U32) (words : List U32) (k : Nat) (mem : Memory) :
    ∃ done rest, words = done ++ rest ∧
      (writeWords mem base (sideBySide k words)).2 =
        { mem with data := storeBytes mem.data (base + BitVec.ofNat 32 (4 * k)) (wordBytes done) } ∧
      ((writeWords mem base (sideBySide k words)).1 = none → rest = []) := by
  induction words generalizing k mem with
  | nil => exact ⟨[], [], rfl, rfl, fun _ => rfl⟩
  | cons v words ih =>
    have hcons : sideBySide k (v :: words) =
        (BitVec.ofNat 32 (4 * k), v) :: sideBySide (k + 1) words := rfl
    rw [hcons, writeWords]
    cases hw : mem.write32 (base + BitVec.ofNat 32 (4 * k)) v with
    | error e => exact ⟨[], v :: words, rfl, rfl, fun h => by cases h⟩
    | ok mem' =>
      obtain ⟨done, rest, hwords, hdata, hrest⟩ := ih (k + 1) mem'
      refine ⟨v :: done, rest, by rw [hwords, cons_append], ?_, hrest⟩
      have hnext : base + BitVec.ofNat 32 (4 * (k + 1)) =
          base + BitVec.ofNat 32 (4 * k) + BitVec.ofNat 32 (leBytes v 4).length := by
        rw [length_leBytes, Nat.mul_succ, BitVec.ofNat_add, BitVec.add_assoc]
      have hbytes : wordBytes (v :: done) = leBytes v 4 ++ wordBytes done := rfl
      rw [write32_ok hw] at hdata
      rw [write32_ok hw, hdata, hnext, hbytes, storeBytes_append]

/-- The words are in memory, from `base` on. -/
def HoldsWords (data : U32 → U8) (base : U32) (words : List U32) : Prop :=
  ∀ i < words.length, leValue 32 (loadBytes data (base + BitVec.ofNat 32 (4 * i)) 4) = words.getD i 0

theorem holdsWords_storeBytes (hlen : 4 * words.length ≤ 2 ^ 32)
    (data : U32 → U8) (base : U32) : HoldsWords (storeBytes data base (wordBytes words)) base words := by
  intro i hi
  have hbytes : loadBytes (storeBytes data base (wordBytes words))
      (base + BitVec.ofNat 32 (4 * i)) 4 = leBytes (words.getD i 0) 4 := by
    refine ext_getElem? fun j => ?_
    by_cases hj : j < 4
    · have hoff : (base + BitVec.ofNat 32 (4 * i) + BitVec.ofNat 32 j - base).toNat = 4 * i + j := by
        bv_omega
      rw [getElem?_loadBytes _ hj, storeBytes_apply (by rw [length_wordBytes]; exact hlen), hoff,
        getD_wordBytes hi hj, getD_eq_getElem?_getD,
        getElem?_eq_getElem (by rw [length_leBytes]; exact hj), Option.getD_some]
    · rw [getElem?_eq_none (by simpa using hj), getElem?_eq_none (by simpa using hj)]
  rw [hbytes, leValue_leBytes (by decide)]

theorem readWords_eq {f : Nat → U32} :
    ∀ {offsets : List Nat}, (∀ o ∈ offsets, mem.read32 (base + BitVec.ofNat 32 o) = .ok (f o)) →
      readWords mem base offsets = some (offsets.map f)
  | [], _ => rfl
  | o :: offsets, h => by
      have ih := readWords_eq (fun o' ho' => h o' (mem_cons_of_mem _ ho'))
      unfold readWords at ih ⊢
      rw [mapM_cons, h o mem_cons_self, ih]
      rfl

/-! ## Contexts -/

/-- What a signal interrupts, and what the return from its handler restores. -/
@[ext] structure Context where
  regs : Reg → U32
  eip : U32
  eflags : U32
  fsBase : U32
  gsBase : U32
  fsSelector : U16
  gsSelector : U16
  fpu : Reg → U64
  fpuTop : U8
  fpuCount : U8
  fpuStatus : U16
  fpuControl : U16
  signalMask : U64

def CPU.context (cpu : CPU) (mask : U64) : Context :=
  { regs := cpu.regs, eip := cpu.eip, eflags := cpu.eflags
    fsBase := cpu.fsBase, gsBase := cpu.gsBase
    fsSelector := cpu.fsSelector, gsSelector := cpu.gsSelector
    fpu := cpu.fpu, fpuTop := cpu.fpuTop, fpuCount := cpu.fpuCount
    fpuStatus := cpu.fpuStatus, fpuControl := cpu.fpuControl, signalMask := mask }

def KState.context (s : KState) : Context := CPU.context s.cpu s.kern.signalMask

/-- The 42 words of a frame, without their offsets. -/
def frameValues (c : Context) (signal : Nat) (restorer : U32) : List U32 :=
  let number : U32 := BitVec.ofNat 32 signal
  [restorer, number, signalFrameMagic, signalFrameVersion, number, c.eip, c.eflags,
    c.regs ESP, c.signalMask.setWidth 32, (c.signalMask >>> 32).setWidth 32, c.fsBase, c.gsBase,
    c.fsSelector.setWidth 32, c.gsSelector.setWidth 32, c.fpuTop.setWidth 32,
    c.fpuCount.setWidth 32, c.fpuStatus.setWidth 32, c.fpuControl.setWidth 32] ++
  ((range 8).map fun i => c.regs (BitVec.ofNat 3 i)) ++
  (range 8).flatMap fun i =>
    let bits := c.fpu (BitVec.ofNat 3 i)
    [bits.setWidth 32, (bits >>> 32).setWidth 32]

theorem length_frameValues (c : Context) (signal : Nat) (restorer : U32) :
    (frameValues c signal restorer).length = 42 := rfl

theorem halves_eq (v : U64) :
    (v.setWidth 32).setWidth 64 ||| (((v >>> 32).setWidth 32).setWidth 64 <<< 32) = v := by
  refine BitVec.eq_of_getLsbD_eq fun i hi => ?_
  by_cases hlow : i < 32
  · simp [hi, hlow]
  · have hback : 32 + (i - 32) = i := by omega
    simp [hi, hlow, hback, show i - 32 < 32 by omega, show i - 32 < 64 by omega]

theorem narrow_widen (h : n ≤ 32) (v : BitVec n) : (v.setWidth 32).setWidth n = v := by
  rw [BitVec.setWidth_setWidth_of_le _ h, BitVec.setWidth_eq]

theorem reg_cases : ∀ r : Reg, r = 0 ∨ r = 1 ∨ r = 2 ∨ r = 3 ∨ r = 4 ∨ r = 5 ∨ r = 6 ∨ r = 7 := by
  decide

/-- A context that `rt_sigreturn` accepts. -/
structure Context.Valid (c : Context) : Prop where
  esp : c.regs ESP ≠ 0
  top : c.fpuTop ≤ 7
  count : c.fpuCount ≤ 8

theorem restoreFrame_eq {c : Context} {restorer : U32}
    (hread : ∀ i < 42, mem.read32 (base + BitVec.ofNat 32 (4 * i)) =
      .ok ((frameValues c signal restorer).getD i 0)) (hv : c.Valid) (cpu : CPU) :
    ∃ cpu', restoreFrame mem base cpu = some (cpu', c.signalMask) ∧
      CPU.context cpu' c.signalMask = c := by
  have hwords : ∀ offsets : List Nat, (∀ o ∈ offsets, o % 4 = 0 ∧ o < 168) →
      readWords mem base offsets =
        some (offsets.map fun o => (frameValues c signal restorer).getD (o / 4) 0) := by
    intro offsets hoffsets
    refine readWords_eq fun o ho => ?_
    obtain ⟨hmod, hlt⟩ := hoffsets o ho
    have hmul : 4 * (o / 4) = o := by omega
    rw [← hread (o / 4) (by omega), hmul]
  have hhead := hwords [32, 36, 20, 24, 28, 40, 44, 48, 52, 56, 60, 64, 68] (by decide)
  have hregs := hwords ((range 8).map (72 + · * 4)) (by decide)
  have hlow := hwords ((range 8).map (104 + · * 8)) (by decide)
  have hhigh := hwords ((range 8).map (108 + · * 8)) (by decide)
  unfold restoreFrame
  rw [hhead, hregs, hlow, hhigh]
  have hok : ¬ (c.regs ESP = 0 ∨ c.fpuTop.setWidth 32 > (7 : U32) ∨
      c.fpuCount.setWidth 32 > (8 : U32) ∨ c.fsSelector.setWidth 32 > (0xffff : U32) ∨
      c.gsSelector.setWidth 32 > (0xffff : U32)) := by
    have h₁ := hv.esp
    have h₂ := hv.top
    have h₃ := hv.count
    bv_omega
  refine ⟨_, (if_neg hok).trans (congrArg some (Prod.ext rfl (halves_eq _))), ?_⟩
  refine Context.ext ?_ rfl rfl rfl rfl ?_ ?_ ?_ ?_ ?_ ?_ ?_ rfl
  · funext r
    rcases reg_cases r with rfl | rfl | rfl | rfl | rfl | rfl | rfl | rfl <;> rfl
  · exact narrow_widen (by decide) c.fsSelector
  · exact narrow_widen (by decide) c.gsSelector
  · funext r
    rcases reg_cases r with rfl | rfl | rfl | rfl | rfl | rfl | rfl | rfl <;> exact halves_eq _
  · exact narrow_widen (by decide) c.fpuTop
  · exact narrow_widen (by decide) c.fpuCount
  · exact narrow_widen (by decide) c.fpuStatus
  · exact narrow_widen (by decide) c.fpuControl

/-! ## One delivery -/

/-- Where `DeliverSignal` puts the frame. -/
def frameBase (esp : U32) : U32 := (esp - signalFrameSize - 16) &&& ~~~15

theorem frameBase_le {esp : U32} (h : ¬ esp < signalFrameSize + 32) :
    (frameBase esp).toNat + 192 ≤ esp.toNat := by
  have hle : (frameBase esp).toNat ≤ (esp - signalFrameSize - 16).toNat := by
    exact Nat.and_le_left
  unfold signalFrameSize at h hle
  bv_omega

theorem deliverSignal_cases (s : KState) (signal : Nat) (action : SignalAction) :
    ((s.deliverSignal signal action).2 = s ∧ (s.deliverSignal signal action).1 ≠ .ok ()) ∨
      (¬ s.cpu.regs ESP < signalFrameSize + 32 ∧
        ∃ done rest, frameValues s.context signal action.restorer = done ++ rest ∧
          (s.deliverSignal signal action).2.mem = { s.mem with
            data := storeBytes s.mem.data (frameBase (s.cpu.regs ESP)) (wordBytes done) } ∧
          ((s.deliverSignal signal action).1 = .ok () →
            rest = [] ∧ (s.deliverSignal signal action).2.cpu.regs ESP =
              frameBase (s.cpu.regs ESP))) := by
  obtain ⟨done, rest, hwords, hdata, hrest⟩ := writeWords_sideBySide (frameBase (s.cpu.regs ESP))
    (frameValues s.context signal action.restorer) 0 s.mem
  rw [show frameBase (s.cpu.regs ESP) + BitVec.ofNat 32 (4 * 0) = frameBase (s.cpu.regs ESP) by
    simp] at hdata
  generalize hr : s.deliverSignal signal action = r
  unfold KState.deliverSignal at hr
  dsimp only at hr
  -- the five refusals, in the order of the source
  split at hr
  · exact Or.inl (hr ▸ ⟨rfl, fun h => by cases h⟩)
  split at hr
  · exact Or.inl (hr ▸ ⟨rfl, fun h => by cases h⟩)
  split at hr
  · exact Or.inl (hr ▸ ⟨rfl, fun h => by cases h⟩)
  split at hr
  · exact Or.inl (hr ▸ ⟨rfl, fun h => by cases h⟩)
  rename_i hesp
  split at hr
  · exact Or.inl (hr ▸ ⟨rfl, fun h => by cases h⟩)
  refine Or.inr ⟨hesp, done, rest, hwords, ?_⟩
  split at hr
  · subst hr
    exact ⟨hdata, fun h => by cases h⟩
  · rename_i hnone
    subst hr
    exact ⟨hdata, fun _ => ⟨hrest hnone, rfl⟩⟩

theorem deliverSignal_above (s : KState) (signal : Nat) (action : SignalAction) {x : U32}
    (hx : s.cpu.regs ESP ≤ x) : (s.deliverSignal signal action).2.mem.data x = s.mem.data x := by
  rcases deliverSignal_cases s signal action with ⟨h, _⟩ | ⟨hesp, done, rest, hwords, hmem, _⟩
  · rw [h]
  have hle := frameBase_le hesp
  have hlen : (wordBytes done).length ≤ 168 := by
    have := congrArg length hwords
    rw [length_frameValues, length_append] at this
    rw [length_wordBytes]
    omega
  rw [hmem]
  refine storeBytes_of_outside fun i hi heq => ?_
  bv_omega

/-! ## Nested signals -/

/-- A handler that has not returned: its frame, and what was interrupted. -/
structure Pending where
  base : U32
  saved : Context

def Pending.Untouched (p : Pending) (s s' : KState) : Prop :=
  ∀ i < signalFrameSize.toNat,
    s'.mem.data (p.base + BitVec.ofNat 32 i) = s.mem.data (p.base + BitVec.ofNat 32 i)

/-- The handler returns: directly, or after `RET` has popped the restorer; and its frame
area can be read. -/
structure Pending.Returns (p : Pending) (s : KState) : Prop where
  esp : s.cpu.regs ESP = p.base ∨ s.cpu.regs ESP = p.base + 4
  readable : s.mem.Readable p.base signalFrameSize.toNat

/-- The states of a task in which the handlers `ps` have not returned, the innermost
first. -/
inductive Nested : List Pending → KState → Prop
  | start (s : KState) : Nested [] s
  | deliver {ps : List Pending} {s s' : KState} (signal : Nat) (action : SignalAction) :
      Nested ps s → s.cpu.fpuTop ≤ 7 → s.cpu.fpuCount ≤ 8 →
      s.deliverSignal signal action = (.ok (), s') →
      (∀ p ∈ ps, s.cpu.regs ESP ≤ p.base + 4 ∨ p.Untouched s s') →
      Nested (⟨s'.cpu.regs ESP, s.context⟩ :: ps) s'
  | run {ps : List Pending} {s s' : KState} :
      Nested ps s → (∀ p ∈ ps, p.Untouched s s') → Nested ps s'
  | sigreturn {p : Pending} {ps : List Pending} {s : KState} :
      Nested (p :: ps) s → p.Returns s → Nested ps s.rtSigreturn

structure Pending.Framed (p : Pending) (s : KState) : Prop where
  room : p.base.toNat + signalFrameSize.toNat ≤ 2 ^ 32
  valid : p.saved.Valid
  words : ∃ signal restorer, HoldsWords s.mem.data p.base (frameValues p.saved signal restorer)

theorem Pending.Framed.untouched (h : p.Framed s) (hsame : p.Untouched s s') : p.Framed s' := by
  obtain ⟨signal, restorer, hwords⟩ := h.words
  refine ⟨h.room, h.valid, signal, restorer, fun i hi => ?_⟩
  rw [← hwords i hi, loadBytes_congr fun j hj => ?_]
  rw [BitVec.add_assoc, ← BitVec.ofNat_add]
  rw [length_frameValues] at hi
  exact hsame (4 * i + j) (by unfold signalFrameSize; simp; omega)

theorem framed_deliver (htop : s.cpu.fpuTop ≤ 7) (hcount : s.cpu.fpuCount ≤ 8)
    (hd : s.deliverSignal signal action = (.ok (), s')) :
    Pending.Framed ⟨s'.cpu.regs ESP, s.context⟩ s' ∧
      ∀ p : Pending, p.Framed s → s.cpu.regs ESP ≤ p.base + 4 → p.Untouched s s' := by
  rcases deliverSignal_cases s signal action with ⟨_, h⟩ | ⟨hesp, done, rest, hwords, hmem, hok⟩
  · rw [hd] at h
    exact absurd rfl h
  rw [hd] at hmem hok
  obtain ⟨rfl, hbase⟩ := hok rfl
  rw [append_nil] at hwords
  subst hwords
  have hle := frameBase_le hesp
  have hlen := length_frameValues s.context signal action.restorer
  constructor
  · refine ⟨?_, ⟨?_, htop, hcount⟩, signal, action.restorer, ?_⟩
    · unfold signalFrameSize
      bv_omega
    · show s.cpu.regs ESP ≠ 0
      bv_omega
    · rw [hmem, hbase]
      exact holdsWords_storeBytes (by rw [hlen]; decide) _ _
  · intro p hp hesp' i hi
    rw [hmem]
    refine storeBytes_of_outside fun j hj heq => ?_
    rw [length_wordBytes, hlen] at hj
    have hroom := hp.room
    bv_omega

/-- `rt_sigreturn` does not write to memory. -/
theorem rtSigreturn_mem (s : KState) : s.rtSigreturn.mem = s.mem := by
  unfold KState.rtSigreturn
  split
  · rfl
  · split <;> rfl

theorem Nested.framed {ps : List Pending} (h : Nested ps s) : ∀ p ∈ ps, p.Framed s := by
  induction h with
  | start s => exact fun p hp => absurd hp not_mem_nil
  | deliver signal action _ htop hcount hd hside ih =>
    obtain ⟨hnew, hold⟩ := framed_deliver htop hcount hd
    intro p hp
    rcases mem_cons.mp hp with rfl | hp
    · exact hnew
    refine (ih p hp).untouched ?_
    rcases hside p hp with hesp | hsame
    · exact hold p (ih p hp) hesp
    · exact hsame
  | run _ hsame ih => exact fun p hp => (ih p hp).untouched (hsame p hp)
  | @sigreturn p ps s _ _ ih =>
    intro q hq
    refine (ih q (mem_cons_of_mem _ hq)).untouched fun i _ => ?_
    rw [rtSigreturn_mem]

/-! ## The return -/

theorem isFrame_eq {magic version : U32}
    (hm : mem.read32 (base + 8) = .ok magic) (hv : mem.read32 (base + 12) = .ok version) :
    isFrame mem base = decide (magic = signalFrameMagic ∧ version = signalFrameVersion) := by
  rw [isFrame, hm, hv]

theorem Pending.Framed.read32 (h : p.Framed s) (hr : s.mem.Readable p.base signalFrameSize.toNat) :
    ∃ signal restorer, ∀ i < 42, s.mem.read32 (p.base + BitVec.ofNat 32 (4 * i)) =
      .ok ((frameValues p.saved signal restorer).getD i 0) := by
  obtain ⟨signal, restorer, hwords⟩ := h.words
  refine ⟨signal, restorer, fun i hi => ?_⟩
  have hroom := h.room
  unfold signalFrameSize at hroom hr
  have hbytes : s.mem.Readable (p.base + BitVec.ofNat 32 (4 * i)) 4 := by
    intro j hj
    rw [BitVec.add_assoc, ← BitVec.ofNat_add]
    exact hr (4 * i + j) (by simp; omega)
  rw [Memory.read32_of_readable hbytes (by bv_omega), hwords i hi]

theorem findFrame_eq (h : p.Framed s) (hr : p.Returns s) :
    findFrame s.mem (s.cpu.regs ESP) = some p.base := by
  obtain ⟨signal, restorer, hread⟩ := h.read32 hr.readable
  have hmagic : s.mem.read32 (p.base + 8) = .ok signalFrameMagic := hread 2 (by decide)
  have hversion : s.mem.read32 (p.base + 12) = .ok signalFrameVersion := hread 3 (by decide)
  have hnumber : s.mem.read32 (p.base + 16) = .ok (BitVec.ofNat 32 signal) := hread 4 (by decide)
  have hthis : isFrame s.mem p.base = true := by
    rw [isFrame_eq hmagic hversion]
    rfl
  rcases hr.esp with hesp | hesp
  · rw [findFrame, hesp, find?_cons_of_pos hthis]
  have hroom := h.room
  unfold signalFrameSize at hroom
  have hhigh : isFrame s.mem (p.base + 4) = false := by
    rw [@isFrame_eq (p.base + 4) _ _ _ (by rw [BitVec.add_assoc]; exact hversion)
      (by rw [BitVec.add_assoc]; exact hnumber)]
    simp [signalFrameVersion, signalFrameMagic]
  have hback : p.base + 4 - 4 = p.base := by bv_omega
  rw [findFrame, hesp, find?_cons_of_neg (by rw [hhigh]; decide), if_pos (by bv_omega), hback,
    find?_cons_of_pos hthis]

/-- The return of the innermost pending handler restores what it interrupted, at any depth
of nesting; and no delivery writes at or above the stack pointer it interrupts. -/
theorem sigreturn_restores :
    (∀ (p : Pending) (ps : List Pending) (s : KState), Nested (p :: ps) s → p.Returns s →
      s.rtSigreturn.context = p.saved) ∧
    ∀ (s : KState) (signal : Nat) (action : SignalAction) (x : U32), s.cpu.regs ESP ≤ x →
      (s.deliverSignal signal action).2.mem.data x = s.mem.data x := by
  refine ⟨fun p ps s hn hr => ?_, fun s signal action x hx => deliverSignal_above s signal action hx⟩
  have hf := hn.framed p mem_cons_self
  obtain ⟨signal, restorer, hread⟩ := hf.read32 hr.readable
  obtain ⟨cpu', hrestore, hcontext⟩ := restoreFrame_eq hread hf.valid s.cpu
  unfold KState.rtSigreturn
  simp only [findFrame_eq hf hr, hrestore]
  exact hcontext

/-- A task with its stack pointer at `0x8000`. -/
def interrupted : KState :=
  KState.new true none { CPU.new with regs := fun r => if r = ESP then 0x8000 else r.setWidth 32 }
    (Memory.new 0x10000) Objects.new

def handlerAction : SignalAction := { handler := 0x2000, flags := 0, restorer := 0x2100, mask := 0 }

/-- In the handler of signal 2, and then in that of signal 3 as well. -/
def inHandler : KState := (interrupted.deliverSignal 2 handlerAction).2
def inHandlers : KState := (inHandler.deliverSignal 3 handlerAction).2

theorem readable_new (h : n ≤ 0x10000) (hp : m.isProtected = false)
    (hsize : m.size = 0x10000) (hfits : addr.toNat + n ≤ 0x10000) : m.Readable addr n := by
  intro i hi
  have hok : m.checkAccess (addr + BitVec.ofNat 32 i) 1 protRead = .ok () :=
    Memory.checkAccess_one.mpr ⟨by rw [hsize]; bv_omega, fun h => by rw [hp] at h; cases h⟩
  exact ⟨_, by rw [Memory.read8, hok]; rfl⟩

/-- Both handlers return, the inner one first. -/
theorem sigreturn_restores_nested :
    inHandlers.rtSigreturn.context = inHandler.context ∧
      inHandlers.rtSigreturn.rtSigreturn.context = interrupted.context := by
  have h₁ : Nested [⟨inHandler.cpu.regs ESP, interrupted.context⟩] inHandler :=
    (Nested.start interrupted).deliver 2 handlerAction (by decide) (by decide)
      (Prod.ext (by decide) rfl) (fun p hp => absurd hp not_mem_nil)
  have h₂ : Nested (⟨inHandlers.cpu.regs ESP, inHandler.context⟩ :: _) inHandlers :=
    h₁.deliver 3 handlerAction (by decide) (by decide) (Prod.ext (by decide) rfl)
      (fun p hp => by
        rw [mem_singleton.mp hp]
        exact Or.inl (by decide))
  have hr₂ : Pending.Returns ⟨inHandlers.cpu.regs ESP, inHandler.context⟩ inHandlers :=
    ⟨Or.inl rfl, readable_new (by decide) rfl rfl (by decide)⟩
  have hinner := sigreturn_restores.1 _ _ _ h₂ hr₂
  refine ⟨hinner, sigreturn_restores.1 _ _ _ (h₂.sigreturn hr₂) ⟨Or.inl ?_, ?_⟩⟩
  · exact congrFun (congrArg Context.regs hinner) ESP
  · exact readable_new (by decide) rfl rfl (by decide)

/-! ## Failure -/

/-- What `rt_sigreturn` brings back; `none` if it fails. -/
def KState.restored (s : KState) : Option (CPU × U64) :=
  (findFrame s.mem (s.cpu.regs ESP)).bind (restoreFrame s.mem · s.cpu)

theorem rtSigreturn_eq (s : KState) :
    s.rtSigreturn = s.restored.elim (s.ret efault) fun r =>
      { s with cpu := r.1, kern := { s.kern with signalMask := r.2 } } := by
  unfold KState.rtSigreturn KState.restored
  cases findFrame s.mem (s.cpu.regs ESP) with
  | none => rfl
  | some base =>
    dsimp only [Option.bind_some]
    cases restoreFrame s.mem base s.cpu <;> rfl

theorem deliverSignal_error {e : SignalError}
    (h : s.deliverSignal signal action = (.error e, s')) : s' = { s with mem := s'.mem } := by
  unfold KState.deliverSignal at h
  dsimp only at h
  iterate 5
    split at h
    · cases h
      rfl
  split at h
  · cases h
    rfl
  · cases h

theorem restoreFrame_stack {cpu cpu' : CPU} {mask : U64}
    (h : restoreFrame mem base cpu = some (cpu', mask)) : cpu'.fpuTop ≤ 7 ∧ cpu'.fpuCount ≤ 8 := by
  unfold restoreFrame at h
  split at h
  · split at h
    · cases h
    rename_i hvalid
    simp only [not_or] at hvalid
    obtain ⟨_, htop, hcount, _⟩ := hvalid
    cases h
    dsimp only
    constructor <;> bv_omega
  · cases h

/-- **Failed signal transitions.**  A delivery that fails has written to memory at most.  A
return that fails has put `-EFAULT` into EAX; one that succeeds has brought back an x87 stack
inside its register file, and no later x87 instruction indexes outside of it. -/
theorem signal_failure_clean (s : KState) :
    (∀ signal action e s', s.deliverSignal signal action = (.error e, s') →
      s' = { s with mem := s'.mem }) ∧
    (s.restored = none → s.rtSigreturn = { s with
      cpu := { s.cpu with regs := fun r => if r = EAX then efault else s.cpu.regs r } }) ∧
    ∀ cpu mask, s.restored = some (cpu, mask) →
      s.rtSigreturn = { s with cpu := cpu, kern := { s.kern with signalMask := mask } } ∧
      cpu.fpuTop ≤ 7 ∧ cpu.fpuCount ≤ 8 ∧
      ∀ log t, Relation.ReflTransGen Steps { cpu with mem := s.mem, log := log } t →
        ∀ op start t', stepX87 op start t ≠ .error .panic t' := by
  refine ⟨fun signal action e s' => deliverSignal_error, fun h => ?_, fun cpu mask h => ?_⟩
  · rw [rtSigreturn_eq, h]
    rfl
  obtain ⟨base, -, hbase⟩ := Option.bind_eq_some_iff.mp h
  obtain ⟨htop, hcount⟩ := restoreFrame_stack hbase
  rw [rtSigreturn_eq, h]
  exact ⟨rfl, htop, hcount, fun log t hrun op start t' => stepX87_noPanic htop hcount hrun op start⟩

end IshGo.Kernel
