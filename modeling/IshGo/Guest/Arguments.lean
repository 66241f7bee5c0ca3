/-
# `IshGo.Guest.Arguments` — arguments written by the loader and read by the kernel

`pushInitialStack` writes strings downwards from the top of the stack and, below them, words
upwards: a count, the pointers to the arguments, a zero, the pointers to the environment, a zero,
and the pairs of the auxiliary vector with a pair of zeros at the end.  `readVector` is how `execve`
reads such pointers.  This module puts the two together.
-/
import IshGo.Elf32.InitialStack
import IshGo.Guest.Process

namespace IshGo.Guest

open I386 Lib Kernel Elf32 Memory

variable {argv envp : List (List U8)} {ptrs ws : List U32} {v : List U8} {m' : Memory} {n : Nat}
  {addr p : U32}
variable {hi lo : Nat} {top : U32}
variable {m : Memory} {vs : List (List U8)}

/-! ## Reading without protection -/

def unguarded (m : Memory) : Memory := { m with isProtected := false }

theorem unguarded_eq (h : m.isProtected = false) : unguarded m = m := by
  cases m
  cases h
  rfl

theorem checkAccess_unguarded {width : U32} (prot : U8)
    (hfits : addr.toNat + width.toNat ≤ m.size.toNat) :
    (unguarded m).checkAccess addr width prot = .ok () := by
  have hcheck : (unguarded m).check addr width = .ok () := check_ok.mpr hfits
  rw [checkAccess, hcheck]
  exact if_pos (Or.inl rfl)

theorem read32_unguarded (hfits : addr.toNat + 4 ≤ m.size.toNat) :
    (unguarded m).read32 addr = .ok (leValue 32 (loadBytes m.data addr 4)) := by
  rw [Memory.read32, checkAccess_unguarded protRead hfits]
  rfl

theorem read8_unguarded (hfits : addr.toNat + 1 ≤ m.size.toNat) :
    (unguarded m).read8 addr = .ok (m.data addr) := by
  rw [Memory.read8, checkAccess_unguarded protRead hfits]
  show Except.ok (leValue 8 [m.data addr]) = _
  simp [leValue]

/-! ## Strings -/

structure Holds (m : Memory) (p : U32) (v : List U8) : Prop where
  fits : p.toNat + (v.length + 1) ≤ m.size.toNat
  bytes : loadBytes m.data p (v.length + 1) = v ++ [0]

theorem Holds.tail {b : U8} (h : Holds m p (b :: v)) : m.data p = b ∧ Holds m (p + 1) v := by
  have hfits := h.fits
  rw [List.length_cons] at hfits
  have hnext : (p + 1).toNat = p.toNat + 1 := by bv_omega
  have hbytes := h.bytes
  obtain ⟨hb, hrest⟩ := List.cons.inj hbytes
  exact ⟨hb, ⟨by omega, hrest⟩⟩

theorem Holds.changed (h : Holds m p v) (hc : ChangesOnly lo hi m m')
    (hsize : m'.size = m.size) (hout : hi ≤ p.toNat ∨ p.toNat + (v.length + 1) ≤ lo) : Holds m' p v := by
  refine ⟨hsize ▸ h.fits, ?_⟩
  rw [← h.bytes]
  refine loadBytes_congr fun i hi' => hc _ ?_
  have hfits := h.fits
  have hx : (p + BitVec.ofNat 32 i).toNat = p.toNat + i := by
    rw [BitVec.toNat_add, BitVec.toNat_ofNat]
    omega
  omega

theorem readCStringLoop_holds (h : Holds m p v) (hv : 0 ∉ v) (hn : v.length < n) :
    (unguarded m).readCStringLoop n p = some v := by
  induction v generalizing p n with
  | nil =>
    obtain ⟨k, rfl⟩ := Nat.exists_eq_add_of_lt hn
    have hzero : m.data p = 0 := (List.cons.inj h.bytes).1
    rw [readCStringLoop, read8_unguarded h.fits, hzero]
    rfl
  | cons b v ih =>
    obtain ⟨hb, hrest⟩ := h.tail
    obtain ⟨hne, hv⟩ := not_or.mp (fun hmem => hv (List.mem_cons.mpr hmem))
    obtain ⟨k, rfl⟩ : ∃ k, n = k + 1 := ⟨n - 1, by omega⟩
    have hlen : v.length < k := by
      rw [List.length_cons] at hn
      omega
    have hfits := h.fits
    rw [readCStringLoop, read8_unguarded (by omega), hb]
    dsimp only
    rw [if_neg (Ne.symm hne), ih hrest hv hlen]
    rfl

theorem readCString_holds (h : Holds m p v) (hv : 0 ∉ v) (hlen : v.length < 2 ^ 20) :
    (unguarded m).readCString p (1 <<< 20) = some v := by
  have hfits := h.fits
  have hcheck : (unguarded m).check p 1 = .ok () :=
    check_ok.mpr (show p.toNat + 1 ≤ m.size.toNat by omega)
  rw [readCString, if_neg (by decide), hcheck]
  refine readCStringLoop_holds h hv ?_
  have hsub : (m.size - p).toNat = m.size.toNat - p.toNat :=
    BitVec.toNat_sub_of_le (BitVec.le_def.mpr (by omega))
  show v.length < (if (1 <<< 20 : U32) < m.size - p then (1 <<< 20 : U32) else m.size - p).toNat
  split
  · exact hlen
  · omega

/-! ## Words -/

def ReadsWords (m : Memory) : U32 → List U32 → Prop
  | _, [] => True
  | addr, w :: ws => m.read32 addr = .ok w ∧ ReadsWords m (addr + 4) ws

theorem add_word (addr : U32) (n : Nat) :
    addr + 4 + BitVec.ofNat 32 (4 * n) = addr + BitVec.ofNat 32 (4 * (n + 1)) := by
  rw [Nat.mul_succ, BitVec.ofNat_add, BitVec.add_comm (BitVec.ofNat 32 (4 * n)), ← BitVec.add_assoc]
  rfl

theorem readsWords_append {vs : List U32} : ReadsWords m addr (ws ++ vs) ↔
      ReadsWords m addr ws ∧ ReadsWords m (addr + BitVec.ofNat 32 (4 * ws.length)) vs := by
  induction ws generalizing addr with
  | nil => simp [ReadsWords]
  | cons w ws ih =>
    rw [List.cons_append, ReadsWords, ReadsWords, ih, add_word, List.length_cons, and_assoc]

theorem readsWords_pushWords {cursor : U32} (h : pushWords m cursor ws = .ok m') :
    ReadsWords (unguarded m') cursor ws := by
  induction ws generalizing m cursor with
  | nil => trivial
  | cons w ws ih =>
    obtain ⟨m₁, hwrite, hrest⟩ := pushWords_cons_ok h
    have hlen : (leBytes w 4).length < 2 ^ 32 := by rw [length_leBytes]; decide
    have hfits := writeBytes_fits hwrite hlen
    rw [length_leBytes] at hfits
    have hnext : (cursor + 4).toNat = cursor.toNat + 4 := by bv_omega
    refine ⟨?_, ih hrest⟩
    have hsize' : m'.size = m.size := (sameShape_pushWords h).size
    -- the words after this one are written above it
    have hkept : loadBytes m'.data cursor 4 = loadBytes m₁.data cursor 4 := by
      refine loadBytes_congr fun i hi => changesOnly_pushWords hrest _ (Or.inl ?_)
      have hx : (cursor + BitVec.ofNat 32 i).toNat = cursor.toNat + i := by
        rw [BitVec.toNat_add, BitVec.toNat_ofNat]
        omega
      omega
    have hwritten : loadBytes m₁.data cursor 4 = leBytes w 4 := by
      rw [writeBytes_result hwrite hlen]
      have hload := @loadBytes_storeBytes (leBytes w 4) cursor m.data (by rw [length_leBytes]; decide)
      rwa [length_leBytes] at hload
    rw [read32_unguarded (by rw [hsize']; exact hfits), hkept, hwritten, leValue_leBytes (by decide)]

/-! ## Pointers to strings -/

def HoldsAll (m : Memory) (ptrs : List U32) (vs : List (List U8)) : Prop := List.Forall₂ (Holds m) ptrs vs

theorem readVectorLoop_holds (h : HoldsAll m ptrs vs)
    (hne : ∀ p ∈ ptrs, p ≠ 0) (hvs : ∀ v ∈ vs, 0 ∉ v ∧ v.length < 2 ^ 20)
    (hwords : ReadsWords (unguarded m) addr (ptrs ++ [0])) (hn : vs.length < n) :
    readVectorLoop (unguarded m) n addr = some vs := by
  induction h generalizing addr n with
  | nil =>
    obtain ⟨k, rfl⟩ : ∃ k, n = k + 1 := ⟨n - 1, by omega⟩
    rw [readVectorLoop, hwords.1]
    rfl
  | @cons p v ptrs vs hp hrest ih =>
    obtain ⟨k, rfl⟩ : ∃ k, n = k + 1 := ⟨n - 1, by omega⟩
    obtain ⟨hv, hlen⟩ := hvs v List.mem_cons_self
    have hmore := ih (fun q hq => hne q (List.mem_cons_of_mem _ hq))
      (fun u hu => hvs u (List.mem_cons_of_mem _ hu)) hwords.2 (Nat.lt_of_succ_lt_succ hn)
    rw [readVectorLoop, hwords.1]
    dsimp only
    rw [if_neg (hne p List.mem_cons_self), readCString_holds hp hv hlen, hmore]
    rfl

theorem HoldsAll.changed (h : HoldsAll m ptrs vs)
    (hc : ChangesOnly lo hi m m') (hsize : m'.size = m.size) (hout : ∀ p ∈ ptrs, hi ≤ p.toNat) :
    HoldsAll m' ptrs vs := by
  induction h with
  | nil => exact .nil
  | @cons p v ptrs vs hp hrest ih =>
    exact .cons (hp.changed hc hsize (Or.inl (hout p List.mem_cons_self)))
      (ih fun q hq => hout q (List.mem_cons_of_mem _ hq))

theorem holds_writeBytes (h : m.writeBytes p (v ++ [0]) = .ok m')
    (hv : v.length + 1 < 2 ^ 32) : Holds m' p v := by
  have hlen : (v ++ [(0 : U8)]).length = v.length + 1 := List.length_append
  have hfits := writeBytes_fits h (by rw [hlen]; exact hv)
  rw [hlen] at hfits
  refine ⟨(writeBytes_shape h).1 ▸ hfits, ?_⟩
  rw [writeBytes_result h (by rw [hlen]; exact hv), ← hlen]
  exact loadBytes_storeBytes (by rw [hlen]; omega)

theorem holdsAll_pushStrings
    (h : pushStrings m top vs = .ok (ptrs, m')) (hvs : ∀ v ∈ vs, v.length + 1 < 2 ^ 32) :
    HoldsAll m' ptrs vs := by
  induction vs generalizing ptrs m' with
  | nil =>
    cases h
    exact .nil
  | cons v vs ih =>
    obtain ⟨rest, m₁, hrest, hroom, hwrite, rfl⟩ := pushStrings_cons_ok h
    have hmore : ∀ u ∈ vs, u.length + 1 < 2 ^ 32 := fun u hu => hvs u (List.mem_cons_of_mem _ hu)
    have hv := hvs v List.mem_cons_self
    obtain ⟨-, hlow, -, -⟩ := pushStrings_spec hrest hmore
    have hlen : (v ++ [(0 : U8)]).length = v.length + 1 := List.length_append
    obtain ⟨-, hnew⟩ := changesOnly_writeBytes hwrite (by rw [hlen]; exact hv)
    have hexact : (BitVec.ofNat 32 (v.length + 1)).toNat = v.length + 1 := toNat_ofNat_of_lt hv
    have hend : (rest.headD top - BitVec.ofNat 32 (v ++ [(0 : U8)]).length).toNat +
        (v ++ [(0 : U8)]).length = (rest.headD top).toNat := by
      have hle := BitVec.le_def.mp (BitVec.not_lt.mp hroom)
      rw [BitVec.toNat_sub_of_le (BitVec.not_lt.mp hroom)]
      rw [hlen, hexact] at *
      omega
    rw [hend] at hnew
    exact .cons (holds_writeBytes hwrite hv)
      ((ih hrest hmore).changed hnew (writeBytes_shape hwrite).1 hlow)

/-! ## The round trip -/

/-- Arguments, or an environment, that `readVector` takes. -/
structure Arguments (vs : List (List U8)) : Prop where
  count : vs.length < 4096
  each : ∀ v ∈ vs, 0 ∉ v ∧ v.length < 2 ^ 20

/-- The pairs of an auxiliary vector in memory, with the name of the program in its place. -/
def auxWords (first : U32) (auxv : List (U32 × U32)) : List U32 :=
  ((auxv.map fun a : U32 × U32 => (a.1, if a.1 = 31 then first else a.2)) ++ [(0, 0)]).flatMap
    fun a : U32 × U32 => [a.1, a.2]

/-- What a program finds on its stack, from the stack pointer on, and that no string is where there
are words. -/
structure RoundTrip (m : Memory) (sp : U32) (ptrs envPtrs : List U32) (argv envp : List (List U8))
    (auxv : List (U32 × U32)) : Prop where
  count : m.read32 sp = .ok (BitVec.ofNat 32 argv.length)
  args : readVector m (sp + 4) 4096 = some argv
  env : readVector m (sp + BitVec.ofNat 32 (4 * (argv.length + 2))) 4096 = some envp
  first : m.read32 (sp + 4) = .ok (ptrs.headD 0)
  aux : ReadsWords m (sp + BitVec.ofNat 32 (4 * (argv.length + envp.length + 3)))
    (auxWords (ptrs.headD 0) auxv)
  strings : HoldsAll m ptrs argv ∧ HoldsAll m envPtrs envp
  apart : ∀ p ∈ ptrs ++ envPtrs,
    sp.toNat + 4 * (argv.length + envp.length + 3 + 2 * (auxv.length + 1)) ≤ p.toNat

theorem argvOf_eq (h : argv ≠ []) : argvOf argv = argv := if_neg h

theorem stackWords_eq (hne : ptrs ≠ []) (envPtrs : List U32) (auxv : List (U32 × U32)) :
    stackWords ptrs envPtrs auxv =
      BitVec.ofNat 32 ptrs.length :: (ptrs ++ [0] ++ (envPtrs ++ [0] ++ auxWords (ptrs.headD 0) auxv)) := by
  obtain ⟨p, ps, rfl⟩ := List.exists_cons_of_ne_nil hne
  simp [stackWords, auxWords, List.flatMap_append, List.flatMap_map]

theorem HoldsAll.unguarded (h : HoldsAll m ptrs vs) : HoldsAll (unguarded m) ptrs vs :=
  h.imp fun _ _ hp => ⟨hp.fits, hp.bytes⟩

theorem readVector_holds (h : HoldsAll m ptrs vs)
    (hne : ∀ p ∈ ptrs, p ≠ 0) (hvs : Arguments vs) (haddr : addr ≠ 0)
    (hwords : ReadsWords (Guest.unguarded m) addr (ptrs ++ [0])) :
    readVector (Guest.unguarded m) addr 4096 = some vs := by
  rw [readVector, if_neg haddr]
  exact readVectorLoop_holds h hne hvs.each hwords hvs.count

theorem roundTrip_pushInitialStack {auxv : List (U32 × U32)}
    {stack : InitialStack} (h : pushInitialStack m top argv envp auxv = .ok stack) (hne : argv ≠ [])
    (hargv : Arguments argv) (henvp : Arguments envp) :
    RoundTrip (unguarded stack.mem) stack.sp stack.argvPtrs stack.envPtrs argv envp auxv := by
  have hlong : ∀ {vs}, Arguments vs → ∀ v ∈ vs, v.length + 1 < 2 ^ 32 := by
    intro vs hvs v hv
    have := (hvs.each v hv).2
    omega
  obtain ⟨m₁, m₂, hpush₁, hpush₂, hwords, hcount, hbelow⟩ :=
    pushInitialStack_parts h ((argvOf_eq hne).symm ▸ hlong hargv) (hlong henvp)
  rw [argvOf_eq hne] at hpush₁ hcount
  obtain ⟨hsum₁, hlow₁, -, -⟩ := pushStrings_spec hpush₁ (hlong hargv)
  obtain ⟨hsum₂, hlow₂, -, hdata₂⟩ := pushStrings_spec hpush₂ (hlong henvp)
  have hlen₁ := length_pushStrings hpush₁
  have hlen₂ := length_pushStrings hpush₂
  have hptrs : stack.argvPtrs ≠ [] := by
    intro hnil
    rw [hnil] at hlen₁
    exact hne (List.length_eq_zero_iff.mp hlen₁.symm)
  have hdata₃ := changesOnly_pushWords hwords
  -- all pointers are above the words
  have habove : ∀ p ∈ stack.argvPtrs ++ stack.envPtrs,
      (stack.envPtrs.headD (stack.argvPtrs.headD top)).toNat ≤ p.toNat := by
    intro p hp
    rcases List.mem_append.mp hp with hp | hp
    · have := hlow₁ p hp
      omega
    · exact hlow₂ p hp
  have hnonzero : ∀ p ∈ stack.argvPtrs ++ stack.envPtrs, p ≠ 0 := by
    rintro p hp rfl
    have := habove 0 hp
    rw [show (0 : U32).toNat = 0 from rfl] at this
    omega
  have hargs : HoldsAll stack.mem stack.argvPtrs argv := by
    refine ((holdsAll_pushStrings hpush₁ (hlong hargv)).changed hdata₂ (sameShape_pushStrings hpush₂).size
      hlow₁).changed hdata₃ (sameShape_pushWords hwords).size fun p hp => ?_
    have := habove p (List.mem_append_left _ hp)
    omega
  have henvs : HoldsAll stack.mem stack.envPtrs envp := by
    refine (holdsAll_pushStrings hpush₂ (hlong henvp)).changed hdata₃ (sameShape_pushWords hwords).size
      fun p hp => ?_
    have := habove p (List.mem_append_right _ hp)
    omega
  -- the words, part by part
  have hread := readsWords_pushWords hwords
  rw [stackWords_eq hptrs] at hread
  obtain ⟨hargc, hread⟩ := hread
  obtain ⟨hread₁, hread⟩ := readsWords_append.mp hread
  obtain ⟨hread₂, hread₃⟩ := readsWords_append.mp hread
  rw [add_word, List.length_append, List.length_singleton, hlen₁] at hread₂ hread₃
  rw [List.length_append, List.length_singleton, hlen₂, BitVec.add_assoc, ← BitVec.ofNat_add] at hread₃
  refine
    { count := hlen₁ ▸ hargc
      args := readVector_holds hargs (fun p hp => hnonzero p (List.mem_append_left _ hp)) hargv ?_ hread₁
      env := readVector_holds henvs (fun p hp => hnonzero p (List.mem_append_right _ hp)) henvp ?_ hread₂
      first := ?_
      aux := ?_
      strings := ⟨hargs.unguarded, henvs.unguarded⟩
      apart := ?_ }
  · bv_omega
  · intro hzero
    have hnat := congrArg BitVec.toNat hzero
    rw [BitVec.toNat_add, BitVec.toNat_ofNat, show (0 : U32).toNat = 0 from rfl] at hnat
    omega
  · obtain ⟨p, ps, hcons⟩ := List.exists_cons_of_ne_nil hptrs
    rw [hcons] at hread₁ ⊢
    exact hread₁.1
  · have haddr : 4 * (argv.length + 1 + 1) + 4 * (envp.length + 1) = 4 * (argv.length + envp.length + 3) := by
      omega
    rwa [haddr] at hread₃
  · intro p hp
    have := habove p hp
    omega

/-! ## What `execve` passes on -/

/-- The loader of a guest is `LoadWithEnvResolver`, on some file. -/
def LoadsElf (env : Env) : Prop :=
  ∀ tick path argv envp image, env.load tick path argv envp = .ok image →
    ∃ parse resolve random data elf, loadWithEnvResolver parse resolve random data argv envp = .ok elf ∧
      image.mem = elf.mem ∧ image.cpu = elf.cpu

structure Passed (s : KState) (argv envp : List (List U8)) : Prop where
  args : readVector (unguarded s.mem) (s.cpu.regs ESP + 4) 4096 = some argv
  env : readVector (unguarded s.mem) (s.cpu.regs ESP + BitVec.ofNat 32 (4 * (argv.length + 2))) 4096 = some envp

/-- An image of `LoadWithEnvResolver` has the arguments that it was loaded with. -/
theorem image_arguments {parse : Parser} {resolve : Option FileResolver}
    {random : Option (Vector U8 16)} {data : List U8} {image : Elf32.Image}
    (h : loadWithEnvResolver parse resolve random data argv envp = .ok image) (hne : argv ≠ [])
    (hargv : Arguments argv) (henvp : Arguments envp) :
    readVector (unguarded image.mem) (image.cpu.regs ESP + 4) 4096 = some argv ∧
      readVector (unguarded image.mem) (image.cpu.regs ESP + BitVec.ofNat 32 (4 * (argv.length + 2))) 4096 =
        some envp := by
  cases hfiles : openFiles parse resolve data with
  | error e =>
    rw [loadWithEnvResolver, hfiles] at h
    cases h
  | ok files =>
    obtain ⟨main, interp⟩ := files
    obtain ⟨size, brk, m, stack, -, -, hstack, rfl⟩ := loadWithEnvResolver_ok hfiles h
    obtain ⟨bytes, m₁, -, -, hpush⟩ := buildStack_ok hstack
    have hesp : (makeImage main interp brk envp stack).cpu.regs ESP = stack.sp := by
      simp only [makeImage, Function.update_self]
    have htrip := roundTrip_pushInitialStack hpush hne hargv henvp
    exact ⟨htrip.args, htrip.env⟩

theorem enter_install (w : World) (i : Nat) (image : Image) :
    ((w.install i image).enter i).mem = image.mem ∧
      ((w.install i image).enter i).cpu.regs ESP = image.cpu.regs ESP := by
  simp only [World.install, World.enter, World.proc, Heap.cell_set, Process.withImage, Heap.cell_alloc, and_self]

theorem replaceImage_ok {w w' : World} {env : Env} {i : Nat} {path : List U8}
    (h : w.replaceImage env i path argv envp = (.ok (), w')) :
    ∃ tick hostPath image v, env.load tick hostPath (if argv = [] then [path] else argv) envp = .ok image ∧
      w' = World.install v i image := by
  unfold World.replaceImage at h
  split at h
  · cases h
  dsimp only at h
  split at h
  · cases h
  · rename_i image hload
    cases h
    exact ⟨_, _, image, _, hload, rfl⟩

/-- What `pushInitialStack` writes is what `readVector` reads.  And the arguments and the environment
that a process passes to `execve` are on the stack of its new image. -/
theorem arguments_round_trip {argv envp : List (List U8)} (hne : argv ≠ []) (hargv : Arguments argv)
    (henvp : Arguments envp) :
    (∀ (m : Memory) (top : U32) (auxv : List (U32 × U32)) (stack : InitialStack), m.isProtected = false →
      top ≤ m.size → (∀ a ∈ auxv, a.1 ≠ 0) → pushInitialStack m top argv envp auxv = .ok stack →
      RoundTrip stack.mem stack.sp stack.argvPtrs stack.envPtrs argv envp auxv) ∧
    ∀ (w w' : World) (env : Env) (i : Nat) (pathAddr argvAddr envpAddr : U32) (name : List U8), LoadsElf env →
      (w.enter i).mem.readCString pathAddr 4096 = some name →
      readVector (w.enter i).mem argvAddr 4096 = some argv →
      readVector (w.enter i).mem envpAddr 4096 = some envp →
      w.replaceImage env i ((w.enter i).guestPath name) argv envp = (.ok (), w') →
      w.execve env i pathAddr argvAddr envpAddr = w' ∧ Passed (w'.enter i) argv envp := by
  constructor
  · intro m top auxv stack hp _ _ hpush
    obtain ⟨m₁, m₂, hpush₁, hpush₂, -, hwords⟩ := pushInitialStack_ok hpush
    have hopen : stack.mem.isProtected = false :=
      (((sameShape_pushStrings hpush₁).trans (sameShape_pushStrings hpush₂)).trans
        (sameShape_pushWords hwords)).isProtected.trans hp
    have htrip := roundTrip_pushInitialStack hpush hne hargv henvp
    rwa [unguarded_eq hopen] at htrip
  intro w w' env i pathAddr argvAddr envpAddr name hloads hname hargs henv hreplace
  constructor
  · simp only [World.execve, hname, hargs, henv, hreplace]
  obtain ⟨tick, hostPath, image, v, hload, rfl⟩ := replaceImage_ok hreplace
  rw [if_neg hne] at hload
  obtain ⟨parse, resolve, random, data, elf, helf, hmem, hcpu⟩ := hloads _ _ _ _ _ hload
  obtain ⟨hgetArgs, hgetEnv⟩ := image_arguments helf hne hargv henvp
  obtain ⟨hmem', hesp⟩ := enter_install v i image
  constructor
  · rw [hmem', hesp, hmem, hcpu]
    exact hgetArgs
  · rw [hmem', hesp, hmem, hcpu]
    exact hgetEnv

/-- Two arguments, the second of them empty, and one name in the environment. -/
theorem arguments_round_trip_two :
    ∃ stack, pushInitialStack (new 4096) 4096 [[0x61], []] [[0x62]] [(31, 0)] = .ok stack ∧
      readVector stack.mem (stack.sp + 4) 4096 = some [[0x61], []] ∧
      readVector stack.mem (stack.sp + 16) 4096 = some [[0x62]] := by
  have hargv : Arguments [[0x61], []] := ⟨by decide, by decide⟩
  have henvp : Arguments [[0x62]] := ⟨by decide, by decide⟩
  have hauxv : ∀ a ∈ [((31 : U32), (0 : U32))], a.1 ≠ 0 := by
    intro a ha
    rw [List.mem_singleton.mp ha]
    decide
  have hsome : (pushInitialStack (new 4096) 4096 [[0x61], []] [[0x62]] [(31, 0)]).toOption.isSome =
      true := by decide +kernel
  cases hpush : pushInitialStack (new 4096) 4096 [[0x61], []] [[0x62]] [(31, 0)] with
  | error e =>
    rw [hpush] at hsome
    cases hsome
  | ok stack =>
    have htrip := (arguments_round_trip (List.cons_ne_nil _ _) hargv henvp).1 (new 4096) 4096 [(31, 0)]
      stack rfl (by decide) hauxv hpush
    exact ⟨stack, rfl, htrip.args, htrip.env⟩

end IshGo.Guest
