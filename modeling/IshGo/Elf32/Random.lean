/-
# `IshGo.Elf32.Random` — the random bytes

They are written right below the top of the stack, and then the strings are pushed from the same top: the last
argument always ends in the block.  The words of the stack, which come last, do stay below it.
-/
import IshGo.Elf32.InitialStack

namespace IshGo.Elf32

open I386 Lib

variable {vs : List (List U8)} {ptrs : List U32} {m m' : Memory} {top : U32} {parse : Parser}
  {resolve : Option FileResolver} {random : Option (Vector U8 16)} {data : List U8} {argv envp : List (List U8)}
  {main : Source} {interp : Option Source} {stack : InitialStack} {image : Image}

theorem pushStrings_last (h : pushStrings m top vs = .ok (ptrs, m')) (hvs : ∀ v ∈ vs, v.length + 1 < 2 ^ 32)
    (hne : vs ≠ []) : ∃ e ∈ ptrs.zip vs, e.1.toNat + (e.2.length + 1) = top.toNat := by
  induction vs generalizing ptrs m' with
  | nil => exact absurd rfl hne
  | cons v vs ih =>
    have hsum := (pushStrings_spec h hvs).1
    obtain ⟨rest, m₁, hrest, -, -, rfl⟩ := pushStrings_cons_ok h
    by_cases hnil : vs = []
    · subst hnil
      exact ⟨_, List.mem_cons_self, hsum⟩
    · obtain ⟨e, he, hend⟩ := ih hrest (fun v' hv' => hvs v' (List.mem_cons_of_mem _ hv')) hnil
      exact ⟨e, List.mem_cons_of_mem _ he, hend⟩

def randomAddr (image : Image) : U32 := stackTop image.mem - 16

structure RandomBlock (image : Image) (bytes : Vector U8 16) (main : Source) (interp : Option Source)
    (argv envp : List (List U8)) : Prop where
  words : ∃ m, pushWords m image.stack.sp (stackWords image.stack.argvPtrs image.stack.envPtrs
    (auxv main interp (randomAddr image))) = .ok image.stack.mem
  below : image.stack.sp.toNat + 4 * wordCount argv envp interp ≤ (randomAddr image).toNat
  inside : ∃ e ∈ image.stack.argvPtrs.zip (argvOf argv), e.1.toNat + (e.2.length + 1) = (randomAddr image).toNat + 16
  kept : ∀ k < 16, total envp + total (argvOf argv) + k < 16 →
    some (image.mem.data (randomAddr image + BitVec.ofNat 32 k)) = bytes.toList[k]?

theorem mod_stackTop (m : Memory) : (stackTop m).toNat % 16 = 0 := by
  have halign := @toNat_and_not_mask 32 (m.size - BitVec.ofNat 32 pageSize) 4 (by decide)
  rw [stackTop, show (15 : U32) = BitVec.ofNat 32 (2 ^ 4 - 1) from rfl, halign]
  omega

/-- **The random bytes.**  Those below the strings are left as drawn. -/
theorem random_block (hfiles : openFiles parse resolve data = .ok (main, interp))
    (hload : loadWithEnvResolver parse resolve random data argv envp = .ok image)
    (hargv : ∀ v ∈ argvOf argv, v.length + 1 < 2 ^ 32) (henv : ∀ v ∈ envp, v.length + 1 < 2 ^ 32) :
    ∃ bytes, random = some bytes ∧ RandomBlock image bytes main interp argv envp := by
  obtain ⟨size, brk, m, stack, -, -, hstack, rfl⟩ := loadWithEnvResolver_ok hfiles hload
  have hplace : randomAddr (makeImage main interp brk envp stack) = stackTop m - 16 := by
    show (stack.mem.size - BitVec.ofNat 32 pageSize &&& ~~~15) - 16 = _
    rw [(sameShape_buildStack hstack).size]
    rfl
  obtain ⟨bytes, m₀, hbytes, hrandom, hpush⟩ := buildStack_ok hstack
  have hlen : bytes.toList.length = 16 := Vector.length_toList
  have hfits := Memory.writeBytes_fits hrandom (by omega)
  have hmod := mod_stackTop m
  rw [hlen] at hfits
  have hbase : (stackTop m - 16).toNat + 16 = (stackTop m).toNat := by bv_omega
  obtain ⟨m₁, m₂, hpush₁, hpush₂, hwords, hcount, hbelow⟩ := pushInitialStack_parts hpush hargv henv
  obtain ⟨hsum₁, -, -, hdata₁⟩ := pushStrings_spec hpush₁ hargv
  obtain ⟨hsum₂, -, -, hdata₂⟩ := pushStrings_spec hpush₂ henv
  have hone := Nat.le_trans (List.length_pos_iff.mpr (argvOf_ne_nil argv)) (length_le_total (argvOf argv))
  refine ⟨bytes, hbytes, ⟨m₂, hplace ▸ hwords⟩, ?_, ?_, hplace ▸ ?_⟩
  · show stack.sp.toNat + 4 * wordCount argv envp interp ≤ (randomAddr _).toNat
    rw [hplace]
    rw [hcount, length_auxv, ← wordCount] at hbelow
    omega
  · obtain ⟨e, he, hend⟩ := pushStrings_last hpush₁ hargv (argvOf_ne_nil argv)
    exact ⟨e, he, hend.trans (hplace ▸ hbase.symm)⟩
  · intro k hk hlow
    -- above the words, and below the strings
    obtain ⟨x, hat, hx⟩ : ∃ x, stackTop m - 16 + BitVec.ofNat 32 k = x ∧ x.toNat + 16 = (stackTop m).toNat + k :=
      ⟨_, rfl, by bv_omega⟩
    show some (stack.mem.data _) = _
    rw [hat, changesOnly_pushWords hwords x (.inr (by omega)), hdata₂ x (.inl (by omega)),
      hdata₁ x (.inl (by omega)), Memory.writeBytes_result hrandom (by omega), ← hat]
    exact storeBytes_inside (by omega) (by bv_omega) (by omega)

def loadOnes : Except LoadError Image :=
  loadWithEnvResolver (fun _ => some (sharedPage 6 0x1800)) none (some (Vector.replicate 16 1)) [] [] []

/-- Every byte drawn is `1`; the last one is overwritten by the zero of the last argument. -/
theorem random_overwritten :
    (loadOnes.map fun image => image.mem.data (randomAddr image + 15)) = .ok 0 := by
  decide +kernel

theorem random_block_ones : ∃ image, loadOnes = .ok image ∧
    RandomBlock image (Vector.replicate 16 1) (sharedPageMain 6 0x1800) none [] [] := by
  have hfiles : openFiles (fun _ => some (sharedPage 6 0x1800)) none [] = .ok (sharedPageMain 6 0x1800, none) := rfl
  have hok : loadOnes.isOk = true := by decide +kernel
  cases hload : loadOnes with
  | error e =>
    rw [hload] at hok
    cases hok
  | ok image =>
    obtain ⟨bytes, hbytes, hblock⟩ := random_block hfiles hload (by decide) (by decide)
    exact ⟨image, rfl, Option.some.inj hbytes ▸ hblock⟩

end IshGo.Elf32
