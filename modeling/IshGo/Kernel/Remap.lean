/-
# `IshGo.Kernel.Remap` — when `mremap` keeps the data

`Remapped` is what a successful `mremap` owes: the range it returns is mapped like the old
one, begins with the old bytes and goes on with zeros; what is left of the old range is
unmapped; and nothing else has changed.  The sizes in it are the lengths rounded up to whole
pages in exact arithmetic.
-/
import IshGo.Kernel.Anonymous

namespace IshGo.Kernel

open I386 I386.AddressSpace

variable {a : AddressSpace} {m : Mapping} {oldAddr oldSize : U32}
variable {space : AddressSpace} {mem : Memory} {newSize : U32} {p : U8}
variable {a' : AddressSpace} {x : U32} {r : U32 × Memory}

/-- `x` is one of `size` addresses from `start` on. -/
def InSpan (start : U32) (size : Nat) (x : U32) : Prop :=
  start.toNat ≤ x.toNat ∧ x.toNat < start.toNat + size

def protAt (a : AddressSpace) (x : U32) : Option U8 := (a.mappingAt x).map Mapping.prot

structure Remapped (mem mem' : Memory) (oldAddr r : U32) (oldSize newSize : Nat) : Prop where
  fits : r.toNat + newSize ≤ mem.space.max.toNat
  mapped : ∃ p, (∀ x, InSpan oldAddr oldSize x → protAt mem.space x = some p) ∧
    ∀ x, InSpan r newSize x → protAt mem'.space x = some p
  copied : ∀ i, i < min oldSize newSize →
    mem'.data (r + BitVec.ofNat 32 i) = mem.data (oldAddr + BitVec.ofNat 32 i)
  zero : ∀ i, oldSize ≤ i → i < newSize → mem'.data (r + BitVec.ofNat 32 i) = 0
  gone : ∀ x, InSpan oldAddr oldSize x → ¬ InSpan r newSize x → mem'.space.mappingAt x = none
  tableKept : ∀ x, ¬ InSpan oldAddr oldSize x → ¬ InSpan r newSize x →
    protAt mem'.space x = protAt mem.space x
  bytesKept : ∀ x, ¬ InSpan oldAddr oldSize x → ¬ InSpan r newSize x → mem'.data x = mem.data x

theorem protAt_eq_of_seen (h : a'.seen x = a.seen x) : protAt a' x = protAt a x := by
  have hfst : ∀ b : AddressSpace, protAt b x = (b.seen x).map Prod.fst := by
    intro b
    rw [protAt, seen, Option.map_map]
    rfl
  rw [hfst, hfst, h]

/-! ## The old range -/

/-- The loop over the mappings that continue the first one: up to the end of the range
everything has its permissions.  The cursor moves by at least one address in every turn. -/
theorem coveredLoop_spec (h : a.WellFormed) (first : Mapping) (oldEnd : U32) :
    ∀ {fuel : Nat} {cursor : U32}, oldEnd.toNat - cursor.toNat ≤ fuel →
      coveredLoop a first oldEnd fuel cursor = true →
      ∀ x, cursor ≤ x → x < oldEnd → protAt a x = some first.prot
  | 0, cursor, hfuel, _, x, hle, hlt => by bv_omega
  | fuel + 1, cursor, hfuel, hloop, x, hle, hlt => by
      have hcursor : cursor < oldEnd := by bv_omega
      rw [coveredLoop, if_pos hcursor] at hloop
      cases hat : a.mappingAt cursor with
      | none =>
        rw [hat] at hloop
        cases hloop
      | some next =>
        rw [hat] at hloop
        dsimp only at hloop
        split at hloop
        · cases hloop
        rename_i hsame
        simp only [not_or, not_not] at hsame
        obtain ⟨hm, hcov₁, hcov₂⟩ := h.mappingAt_iff.mp hat
        by_cases hx : x < next.endAddr
        · have hatx := h.mappingAt_iff.mpr ⟨hm, ⟨BitVec.le_trans hcov₁ hle, hx⟩⟩
          rw [protAt, hatx, Option.map_some, hsame.2.1]
        · exact coveredLoop_spec h first oldEnd (by bv_omega) hloop x (by bv_omega) hlt

/-- Every address of the range is mapped with the permissions `p`. -/
def CoveredWith (a : AddressSpace) (p : U8) (start size : U32) : Prop :=
  ∀ x, InRange start size x → protAt a x = some p

theorem coveredWith_of_loop (h : a.WellFormed)
    (hfits : oldAddr.toNat + oldSize.toNat ≤ a.max.toNat) (hat : a.mappingAt oldAddr = some m)
    (hloop : coveredLoop a m (oldAddr + oldSize) (oldAddr + oldSize).toNat m.endAddr = true) :
    CoveredWith a m.prot oldAddr oldSize := by
  intro x hx
  obtain ⟨hx₁, hx₂⟩ := hx
  by_cases hfirst : x < m.endAddr
  · obtain ⟨hm, hcov⟩ := h.mappingAt_iff.mp hat
    have hatx := h.mappingAt_iff.mpr ⟨hm, ⟨BitVec.le_trans hcov.1 hx₁, hfirst⟩⟩
    rw [protAt, hatx, Option.map_some]
  · exact coveredLoop_spec h m _ (by omega) hloop x (BitVec.not_lt.mp hfirst) (by bv_omega)

/-! ## The four ways to succeed -/

inductive Resized (mem : Memory) (m : Mapping) (oldAddr oldSize newSize : U32) : U32 × Memory → Prop
  | same : oldSize = newSize → Resized mem m oldAddr oldSize newSize (oldAddr, mem)
  | shrunk {space : AddressSpace} : newSize < oldSize →
      mem.space.remove (oldAddr + newSize) (oldSize - newSize) = .ok space →
      Resized mem m oldAddr oldSize newSize (oldAddr, { mem with space := space })
  | grown {space : AddressSpace} {mem' : Memory} : oldSize < newSize →
      mem.space.add (oldAddr + oldSize) (newSize - oldSize) m.prot m.name = .ok space →
      { mem with space := space }.writeBytes (oldAddr + oldSize) (zeroBytes (newSize - oldSize)) =
        .ok mem' →
      Resized mem m oldAddr oldSize newSize (oldAddr, mem')
  | moved {next moved : U32} {space space' : AddressSpace} {mem₁ mem₂ : Memory} : oldSize < newSize →
      { mem.space with nextHint := next }.add moved newSize m.prot m.name = .ok space →
      { mem with space := space }.writeBytes moved (zeroBytes newSize) = .ok mem₁ →
      mem₁.writeBytes moved (loadBytes mem.data oldAddr oldSize.toNat) = .ok mem₂ →
      mem₂.space.remove oldAddr oldSize = .ok space' →
      Resized mem m oldAddr oldSize newSize (moved, { mem₂ with space := space' })

theorem moveTo_cases (hlt : oldSize < newSize) (target : U32) :
    let r := moveTo mem m oldAddr oldSize newSize target (loadBytes mem.data oldAddr oldSize.toNat)
    ¬ IsErrno r.1 → Resized mem m oldAddr oldSize newSize r := by
  dsimp only
  unfold moveTo
  obtain ⟨next, ⟨e, hmap⟩ | ⟨moved, space, hmap, hadd, _⟩⟩ :=
    mapAnonymous_cases mem.space target newSize m.prot m.name
  · rw [hmap]
    intro hok
    exact absurd isErrno_enomem hok
  rw [hmap]
  dsimp only
  cases hw₁ : { mem with space := space }.writeBytes moved (zeroBytes newSize) with
  | error e =>
    intro hok
    exact absurd isErrno_efault hok
  | ok mem₁ =>
    dsimp only
    cases hw₂ : mem₁.writeBytes moved (loadBytes mem.data oldAddr oldSize.toNat) with
    | error e =>
      intro hok
      exact absurd isErrno_efault hok
    | ok mem₂ =>
      dsimp only
      cases hrem : mem₂.space.remove oldAddr oldSize with
      | error e =>
        intro hok
        exact absurd isErrno_efault hok
      | ok space' =>
        intro _
        exact .moved hlt hadd hw₁ hw₂ hrem

theorem moveMapping_cases (hlt : oldSize < newSize) (flags newAddr : U32) :
    let r := moveMapping mem m oldAddr oldSize newSize flags newAddr
    ¬ IsErrno r.1 → Resized mem m oldAddr oldSize newSize r := by
  dsimp only
  unfold moveMapping
  split
  · intro hok
    exact absurd isErrno_enomem hok
  cases hread : mem.readBytes oldAddr oldSize with
  | error e =>
    intro hok
    exact absurd isErrno_efault hok
  | ok oldData =>
    obtain ⟨_, rfl⟩ := Memory.readWith_ok hread
    dsimp only
    split
    · split
      · intro hok
        exact absurd isErrno_einval hok
      · exact moveTo_cases hlt newAddr
    · exact moveTo_cases hlt 0

theorem resize_cases (h : mem.space.WellFormed) (flags newAddr : U32) :
    let r := resize mem m oldAddr oldSize newSize flags newAddr
    ¬ IsErrno r.1 → Resized mem m oldAddr oldSize newSize r := by
  dsimp only
  unfold resize
  split
  · rename_i hsame
    intro _
    exact .same hsame
  split
  · rename_i hlt
    cases hrem : mem.space.remove (oldAddr + newSize) (oldSize - newSize) with
    | error e =>
      intro hok
      exact absurd isErrno_einval hok
    | ok space =>
      intro _
      exact .shrunk hlt hrem
  have hlt : oldSize < newSize := by bv_omega
  rcases growInPlace_cases h m (oldAddr + oldSize) (oldAddr + newSize) (newSize - oldSize) with
    ⟨space, mem', hadd, hw, hgrow⟩ | hgrow
  · rw [hgrow]
    intro _
    exact .grown hlt hadd hw
  · rw [hgrow]
    exact moveMapping_cases hlt flags newAddr

/-- The range does not have to move: it does not grow, or what follows it is free. -/
def StaysPut (mem : Memory) (m : Mapping) (oldAddr oldSize newSize : U32) : Prop :=
  newSize ≤ oldSize ∨
    (growInPlace mem m (oldAddr + oldSize) (oldAddr + newSize) (newSize - oldSize)).1 = true

instance (mem : Memory) (m : Mapping) (oldAddr oldSize newSize : U32) :
    Decidable (StaysPut mem m oldAddr oldSize newSize) := inferInstanceAs (Decidable (_ ∨ _))

/-- Where a range that has to move goes: to the address that `MREMAP_FIXED` gives, or to the hole that
the search finds. -/
def remapTarget (a : AddressSpace) (newSize flags newAddr : U32) : U32 :=
  if flags &&& 2 ≠ 0 ∧ newAddr ≠ 0 then newAddr
  else ((a.findHole newSize a.nextHint).toOption.map Prod.fst).getD 0

section Place
variable {flags newAddr : U32}

theorem mapAnonymous_hole {size mapped : U32} {prot : U8} {name : String}
    (h : (a.mapAnonymous 0 size prot name).1 = .ok mapped) :
    ((a.findHole size a.nextHint).toOption.map Prod.fst).getD 0 = mapped := by
  unfold mapAnonymous at h
  rw [if_pos rfl] at h
  cases hfind : a.findHole size a.nextHint with
  | error e =>
    rw [hfind] at h
    cases h
  | ok r =>
    rw [hfind] at h
    dsimp only [mapAt] at h
    split at h
    · cases h
    · exact Except.ok.inj h

theorem moveTo_ok {target : U32} {oldData : List U8} :
    let r := moveTo mem m oldAddr oldSize newSize target oldData
    ¬ IsErrno r.1 → (mem.space.mapAnonymous target newSize m.prot m.name).1 = .ok r.1 := by
  dsimp only
  unfold moveTo
  dsimp only
  split
  · exact fun hok => absurd isErrno_enomem hok
  rename_i hmap
  split
  · exact fun hok => absurd isErrno_efault hok
  split
  · exact fun hok => absurd isErrno_efault hok
  split
  · exact fun hok => absurd isErrno_efault hok
  · exact fun _ => hmap

theorem moveMapping_ok :
    let r := moveMapping mem m oldAddr oldSize newSize flags newAddr
    ¬ IsErrno r.1 → (mem.space.mapAnonymous (if flags &&& 2 ≠ 0 then newAddr else 0) newSize
      m.prot m.name).1 = .ok r.1 := by
  dsimp only
  unfold moveMapping
  split
  · exact fun hok => absurd isErrno_enomem hok
  split
  · exact fun hok => absurd isErrno_efault hok
  split
  · split
    · exact fun hok => absurd isErrno_einval hok
    · exact moveTo_ok
  · exact moveTo_ok

/-- Where a range ends up, in a table of any kind. -/
theorem resize_ok :
    let r := resize mem m oldAddr oldSize newSize flags newAddr
    let grown := growInPlace mem m (oldAddr + oldSize) (oldAddr + newSize) (newSize - oldSize)
    ¬ IsErrno r.1 → if StaysPut mem m oldAddr oldSize newSize then r.1 = oldAddr
      else oldSize < newSize ∧ (grown.2.space.mapAnonymous (if flags &&& 2 ≠ 0 then newAddr else 0)
        newSize m.prot m.name).1 = .ok r.1 := by
  dsimp only
  unfold resize
  split
  · rename_i hsame
    have hput : StaysPut mem m oldAddr oldSize newSize := Or.inl (by bv_omega)
    rw [if_pos hput]
    exact fun _ => rfl
  split
  · rename_i hlt
    have hput : StaysPut mem m oldAddr oldSize newSize := Or.inl (BitVec.le_of_lt hlt)
    rw [if_pos hput]
    split
    · exact fun hok => absurd isErrno_einval hok
    · exact fun _ => rfl
  dsimp only
  split
  · rename_i hgrow
    have hput : StaysPut mem m oldAddr oldSize newSize := Or.inr hgrow
    rw [if_pos hput]
    exact fun _ => rfl
  · rename_i hne hle hgrow
    have hmove : ¬ StaysPut mem m oldAddr oldSize newSize :=
      fun hput => hput.elim (by bv_omega) hgrow
    rw [if_neg hmove]
    exact fun hok => ⟨by bv_omega, moveMapping_ok hok⟩

theorem growInPlace_keeps (h : mem.space.WellFormed)
    (hmove : ¬ StaysPut mem m oldAddr oldSize newSize) :
    (growInPlace mem m (oldAddr + oldSize) (oldAddr + newSize) (newSize - oldSize)).2 = mem := by
  rcases growInPlace_cases h m (oldAddr + oldSize) (oldAddr + newSize) (newSize - oldSize) with
    ⟨_, _, _, _, hgrow⟩ | hgrow
  · exact absurd (Or.inr (by rw [hgrow])) hmove
  · rw [hgrow]

/-- Where a range ends up, from what is known before. -/
theorem resize_target (h : mem.space.WellFormed) (hat : mem.space.mappingAt oldAddr = some m) :
    let r := resize mem m oldAddr oldSize newSize flags newAddr
    ¬ IsErrno r.1 → if StaysPut mem m oldAddr oldSize newSize then r.1 = oldAddr
      else r.1 = remapTarget mem.space newSize flags newAddr ∧ r.1 ≠ oldAddr := by
  intro r hok
  have hplace := resize_ok hok
  split at hplace
  · rwa [if_pos ‹_›]
  rename_i hmove
  rw [if_neg hmove]
  rw [growInPlace_keeps h hmove] at hplace
  obtain ⟨hlt, hmap⟩ := hplace
  obtain ⟨next, hadd, htarget⟩ := mapAnonymous_ok (Prod.ext hmap rfl)
  refine ⟨?_, fun hold => ?_⟩
  · unfold remapTarget
    by_cases hfixed : flags &&& 2 ≠ 0 ∧ newAddr ≠ 0
    · rw [if_pos hfixed.1] at htarget
      rw [if_pos hfixed]
      exact htarget hfixed.2
    · have hzero : (if flags &&& 2 ≠ 0 then newAddr else 0) = 0 := by
        split
        · exact not_not.mp fun hne => hfixed ⟨‹_›, hne⟩
        · rfl
      rw [hzero] at hmap
      rw [if_neg hfixed]
      exact (mapAnonymous_hole hmap).symm
  · -- the new range is free, and something is mapped at the old address
    have hin : InRange r.1 newSize oldAddr := by
      unfold InRange
      bv_omega
    have hnone := (h.nextHint next).mappingAt_before_add hadd hin
    rw [show ({ mem.space with nextHint := next } : AddressSpace).mappingAt oldAddr = _ from hat] at hnone
    cases hnone

end Place

theorem mremap_cases (h : mem.space.WellFormed) (oldAddr oldLength newLength flags newAddr : U32) :
    let r := mremap mem oldAddr oldLength newLength flags newAddr
    ¬ IsErrno r.1 →
      ∃ oldSize newSize m, pageLength oldLength = some oldSize ∧
        pageLength newLength = some newSize ∧
        oldAddr.toNat + oldSize.toNat ≤ mem.space.max.toNat ∧
        mem.space.mappingAt oldAddr = some m ∧ CoveredWith mem.space m.prot oldAddr oldSize ∧
        (if StaysPut mem m oldAddr oldSize newSize then r.1 = oldAddr
          else r.1 = remapTarget mem.space newSize flags newAddr ∧ r.1 ≠ oldAddr) ∧
        Resized mem m oldAddr oldSize newSize r := by
  dsimp only
  unfold mremap
  split
  · rename_i oldSize newSize hold hnew
    split
    · intro hok
      exact absurd isErrno_einval hok
    rename_i hargs
    have hfits : oldAddr.toNat + oldSize.toNat ≤ mem.space.max.toNat := by
      bv_omega
    cases hat : mem.space.mappingAt oldAddr with
    | none =>
      intro hok
      exact absurd isErrno_einval hok
    | some m =>
      dsimp only
      split
      · intro hok
        exact absurd isErrno_einval hok
      rename_i hloop
      intro hok
      exact ⟨oldSize, newSize, m, hold, hnew, hfits, rfl,
        coveredWith_of_loop h hfits hat (Bool.not_eq_false _ ▸ hloop), resize_target h hat hok,
        resize_cases h flags newAddr hok⟩
  · intro hok
    exact absurd isErrno_einval hok

/-! ## What each of them keeps -/

/-- What `Remove` needs: the end that is cut off does not lie inside an inner mapping, and a
range that is moved out of the middle of a mapping leaves nothing behind it. -/
def RemapKeeps (mem : Memory) (m : Mapping) (oldAddr oldSize newSize flags newAddr : U32) : Prop :=
  if newSize < oldSize then ¬ mem.space.SplitsInner (oldAddr + newSize) (oldSize - newSize)
  else ¬ StaysPut mem m oldAddr oldSize newSize →
    ∀ k ∈ mem.space.mappings, k.start < oldAddr → oldAddr + oldSize < k.endAddr →
      remapTarget mem.space newSize flags newAddr < oldAddr ∧ ∀ n ∈ mem.space.mappings, n.start ≤ k.start

theorem remapped_same (hfits : oldAddr.toNat + oldSize.toNat ≤ mem.space.max.toNat)
    (hcov : CoveredWith mem.space p oldAddr oldSize) :
    Remapped mem mem oldAddr oldAddr oldSize.toNat oldSize.toNat where
  fits := hfits
  mapped := ⟨p, hcov, hcov⟩
  copied _ _ := rfl
  zero _ h₁ h₂ := absurd h₁ (Nat.not_le.mpr h₂)
  gone _ h₁ h₂ := absurd h₁ h₂
  tableKept _ _ _ := rfl
  bytesKept _ _ _ := rfl

theorem remapped_shrunk_iff (h : mem.space.WellFormed)
    (hfits : oldAddr.toNat + oldSize.toNat ≤ mem.space.max.toNat)
    (hcov : CoveredWith mem.space p oldAddr oldSize) (hlt : newSize < oldSize)
    (hrem : mem.space.remove (oldAddr + newSize) (oldSize - newSize) = .ok space) :
    Remapped mem { mem with space := space } oldAddr oldAddr oldSize.toNat newSize.toNat ↔
      ¬ mem.space.SplitsInner (oldAddr + newSize) (oldSize - newSize) := by
  have hacc : ¬ mem.space.rejects (oldAddr + newSize) (oldSize - newSize) := by
    unfold rejects
    bv_omega
  constructor
  · intro hre hsplit
    obtain ⟨k, hk, hbehind, hlost⟩ := h.lost_of_splitsInner hacc hsplit hrem
    have hout : ∀ size : Nat, size ≤ oldSize.toNat → ¬ InSpan oldAddr size k.start := by
      intro size hsize
      unfold InSpan
      bv_omega
    have hprot := hre.tableKept k.start (hout _ (Nat.le_refl _)) (hout _ (by bv_omega))
    rw [protAt, protAt, mappingAt_eq_none hlost, h.mappingAt_start hk] at hprot
    cases hprot
  intro hsplit
  obtain ⟨space', hrem', _, _, hexact⟩ := h.remove_exact hacc hsplit
  rw [hrem] at hrem'
  cases hrem'
  -- the range that is removed is what is left of the old range
  have hcut : ∀ x, InRange (oldAddr + newSize) (oldSize - newSize) x ↔
      InSpan oldAddr oldSize.toNat x ∧ ¬ InSpan oldAddr newSize.toNat x := by
    intro x
    unfold InRange InSpan
    bv_omega
  refine ⟨by bv_omega, ⟨p, hcov, ?_⟩, ?_, ?_, ?_, ?_, ?_⟩
  · intro x hx
    have hold : InSpan oldAddr oldSize.toNat x := ⟨hx.1, by have := hx.2; bv_omega⟩
    have hkept := hexact.kept x fun hin => ((hcut x).mp hin).2 hx
    exact (protAt_eq_of_seen hkept).trans (hcov x hold)
  · intro i _
    rfl
  · intro i h₁ h₂
    bv_omega
  · intro x h₁ h₂
    exact hexact.gone x ((hcut x).mpr ⟨h₁, h₂⟩)
  · intro x h₁ _
    exact protAt_eq_of_seen (hexact.kept x fun hin => h₁ ((hcut x).mp hin).1)
  · intro x _ _
    rfl

theorem remapped_grown (h : mem.space.WellFormed) (hcov : CoveredWith mem.space p oldAddr oldSize)
    (hfits : oldAddr.toNat + oldSize.toNat ≤ mem.space.max.toNat) (hlt : oldSize < newSize)
    {name : String}
    (hadd : mem.space.add (oldAddr + oldSize) (newSize - oldSize) p name = .ok space)
    {mem' : Memory}
    (hw : { mem with space := space }.writeBytes (oldAddr + oldSize)
      (zeroBytes (newSize - oldSize)) = .ok mem') :
    Remapped mem mem' oldAddr oldAddr oldSize.toNat newSize.toNat := by
  have hfresh : FreshlyMapped mem mem' (oldAddr + oldSize) (newSize - oldSize) p :=
    @freshlyMapped_of_fill _ _ _ mem _ _ mem.space.nextHint _ h hadd hw
  have hroom := hfresh.fits
  -- the new part is what the new range has more than the old one
  have hnew : ∀ x, InRange (oldAddr + oldSize) (newSize - oldSize) x ↔
      InSpan oldAddr newSize.toNat x ∧ ¬ InSpan oldAddr oldSize.toNat x := by
    intro x
    unfold InRange InSpan
    bv_omega
  refine ⟨by bv_omega, ⟨p, hcov, ?_⟩, ?_, ?_, ?_, ?_, ?_⟩
  · intro x hx
    by_cases hold : InSpan oldAddr oldSize.toNat x
    · have hkept := hfresh.tableKept x fun hin => ((hnew x).mp hin).2 hold
      exact (protAt_eq_of_seen hkept).trans (hcov x hold)
    · obtain ⟨m, hat, hprot⟩ := hfresh.mapped x ((hnew x).mpr ⟨hx, hold⟩)
      rw [protAt, hat, Option.map_some, hprot]
  · intro i hi
    refine hfresh.bytesKept _ fun hin => ((hnew _).mp hin).2 ?_
    unfold InSpan
    bv_omega
  · intro i h₁ h₂
    refine hfresh.zero _ ((hnew _).mpr ?_)
    unfold InSpan
    bv_omega
  · intro x h₁ h₂
    refine absurd ?_ h₂
    exact ⟨h₁.1, by have := h₁.2; bv_omega⟩
  · intro x _ h₂
    exact protAt_eq_of_seen (hfresh.tableKept x fun hin => h₂ ((hnew x).mp hin).1)
  · intro x _ h₂
    exact hfresh.bytesKept x fun hin => h₂ ((hnew x).mp hin).1

/-! ## The move -/

section Move
variable {mem₁ mem₂ : Memory} {name : String} {next moved : U32}

theorem moved_bytes (hlt : oldSize < newSize)
    (hadd : { mem.space with nextHint := next }.add moved newSize p name = .ok space)
    (hw₁ : { mem with space := space }.writeBytes moved (zeroBytes newSize) = .ok mem₁)
    (hw₂ : mem₁.writeBytes moved (loadBytes mem.data oldAddr oldSize.toNat) = .ok mem₂) :
    mem₂.space = space ∧
      (∀ i, i < oldSize.toNat →
        mem₂.data (moved + BitVec.ofNat 32 i) = mem.data (oldAddr + BitVec.ofNat 32 i)) ∧
      (∀ i, oldSize.toNat ≤ i → i < newSize.toNat → mem₂.data (moved + BitVec.ofNat 32 i) = 0) ∧
      ∀ x, ¬ InRange moved newSize x → mem₂.data x = mem.data x := by
  have hfits := add_fits hadd
  have hzero := storeBytes_zeroBytes mem.data hfits
  have hlen : (loadBytes mem.data oldAddr oldSize.toNat).length = oldSize.toNat :=
    length_loadBytes mem.data oldSize.toNat oldAddr
  rw [Memory.writeBytes_result hw₁ (by rw [length_zeroBytes]; exact newSize.isLt)] at hw₂
  rw [Memory.writeBytes_result hw₂ (by rw [hlen]; exact oldSize.isLt)]
  dsimp only
  have hoff : ∀ i, i < newSize.toNat → (moved + BitVec.ofNat 32 i - moved).toNat = i := by
    intro i hi
    bv_omega
  refine ⟨rfl, ?_, ?_, ?_⟩
  · intro i hi
    refine Option.some.inj ?_
    rw [storeBytes_inside (by omega) (hoff i (by bv_omega)) (by omega), getElem?_loadBytes mem.data hi]
  · intro i h₁ h₂
    rw [storeBytes_beyond (by omega) (by rw [hoff i h₂, hlen]; exact h₁), hzero, if_pos]
    unfold InRange
    bv_omega
  intro x hx
  rw [storeBytes_of_outside, hzero, if_neg hx]
  intro i hi heq
  refine hx ?_
  unfold InRange
  bv_omega

theorem moved_disjoint (h : mem.space.WellFormed) (hcov : CoveredWith mem.space p oldAddr oldSize)
    (hadd : { mem.space with nextHint := next }.add moved newSize p name = .ok space)
    (hold : InRange oldAddr oldSize x) : ¬ InRange moved newSize x := by
  intro hnew
  have hnone : mem.space.mappingAt x = none := (h.nextHint next).mappingAt_before_add hadd hnew
  have hsome := hcov x hold
  rw [protAt, hnone] at hsome
  cases hsome

/-- The table with the new mapping: the old range lies in an inner mapping exactly if
something of the old table, or the new mapping, is behind the mapping that holds it. -/
theorem splitsInner_add_iff (h : mem.space.WellFormed)
    (hfits : oldAddr.toNat + oldSize.toNat ≤ mem.space.max.toNat) (hsize : oldSize ≠ 0)
    (hcov : CoveredWith mem.space p oldAddr oldSize)
    (hadd : { mem.space with nextHint := next }.add moved newSize p name = .ok space) :
    space.SplitsInner oldAddr oldSize ↔
      ∃ m ∈ mem.space.mappings, m.start < oldAddr ∧ oldAddr + oldSize < m.endAddr ∧
        ¬ (moved < oldAddr ∧ ∀ n ∈ mem.space.mappings, n.start ≤ m.start) := by
  have hwf := (h.nextHint next).add hadd
  obtain ⟨hpos, hend, _⟩ := accepted (add_ok hadd).1
  have hfree := (freeAt_of_add hadd).2
  have hmem : ∀ n, n ∈ space.mappings ↔
      n ∈ mem.space.mappings ∨ n = ⟨moved, moved + newSize, p, name⟩ := fun n => mem_add hadd
  constructor
  · rintro ⟨m, hm, hleft, hright⟩
    obtain ⟨hm, n, hn, hbehind⟩ := hwf.table.mem_dropLast_iff.mp hm
    rcases (hmem m).mp hm with hm | rfl
    · refine ⟨m, hm, hleft, hright, ?_⟩
      rintro ⟨hlow, hlast⟩
      rcases (hmem n).mp hn with hn | rfl
      · have := hlast n hn
        bv_omega
      · -- the new mapping would begin inside `m`
        have := hfree m hm
        bv_omega
    · -- the old range is not inside the new mapping
      have hold : InRange oldAddr oldSize oldAddr := by
        unfold InRange
        bv_omega
      refine absurd ?_ (moved_disjoint h hcov hadd hold)
      unfold InRange
      bv_omega
  · rintro ⟨m, hm, hleft, hright, hnot⟩
    refine ⟨m, hwf.table.mem_dropLast_iff.mpr ⟨(hmem m).mpr (Or.inl hm), ?_⟩, hleft, hright⟩
    by_cases hlow : moved < oldAddr
    · obtain ⟨n, hn⟩ := not_forall.mp fun hall => hnot ⟨hlow, hall⟩
      obtain ⟨hn, hlt⟩ := Classical.not_imp.mp hn
      exact ⟨n, (hmem n).mpr (Or.inl hn), BitVec.not_le.mp hlt⟩
    · refine ⟨_, (hmem _).mpr (Or.inr rfl), ?_⟩
      bv_omega

theorem remapped_moved_iff (h : mem.space.WellFormed)
    (hcov : CoveredWith mem.space p oldAddr oldSize) (hlt : oldSize < newSize)
    (hadd : { mem.space with nextHint := next }.add moved newSize p name = .ok space)
    (hw₁ : { mem with space := space }.writeBytes moved (zeroBytes newSize) = .ok mem₁)
    (hw₂ : mem₁.writeBytes moved (loadBytes mem.data oldAddr oldSize.toNat) = .ok mem₂)
    (hacc : ¬ space.rejects oldAddr oldSize) {space' : AddressSpace}
    (hrem : space.remove oldAddr oldSize = .ok space') :
    Remapped mem { mem₂ with space := space' } oldAddr moved oldSize.toNat newSize.toNat ↔
      ¬ space.SplitsInner oldAddr oldSize := by
  have hwf := (h.nextHint next).add hadd
  obtain ⟨_, hcopied, hzero, hout⟩ := moved_bytes hlt hadd hw₁ hw₂
  have hold : ∀ x, ¬ InRange moved newSize x → space.mappingAt x = mem.space.mappingAt x := by
    intro x hx
    exact (h.nextHint next).mappingAt_add_outside hadd hx
  constructor
  · intro hre hsplit
    obtain ⟨k, hk, hbehind, hlost⟩ := hwf.lost_of_splitsInner hacc hsplit hrem
    have hnone : protAt space' k.start = none := by
      rw [protAt, mappingAt_eq_none hlost]
      rfl
    by_cases hnew : InRange moved newSize k.start
    · obtain ⟨q, _, hmapped⟩ := hre.mapped
      have hsome := hmapped k.start hnew
      rw [show protAt space' k.start = some q from hsome] at hnone
      cases hnone
    have hkept := hre.tableKept k.start (not_inRange_of_le hbehind) hnew
    rw [show protAt space' k.start = _ from hkept, protAt, ← hold k.start hnew,
      hwf.mappingAt_start hk] at hnone
    cases hnone
  intro hsplit
  obtain ⟨space₂, hrem', _, _, hexact⟩ := hwf.remove_exact hacc hsplit
  rw [hrem] at hrem'
  cases hrem'
  refine ⟨(freeAt_of_add hadd).1, ⟨p, hcov, ?_⟩, ?_, hzero, ?_, ?_, ?_⟩
  · intro x hx
    have hkept := hexact.kept x fun hin => moved_disjoint h hcov hadd hin hx
    refine (protAt_eq_of_seen hkept).trans ?_
    rw [protAt, (h.nextHint next).mappingAt_add_inside hadd hx]
    rfl
  · intro i hi
    exact hcopied i (by omega)
  · intro x hx _
    exact hexact.gone x hx
  · intro x h₁ h₂
    refine (protAt_eq_of_seen (hexact.kept x h₁)).trans ?_
    rw [protAt, hold x h₂]
    rfl
  · intro x _ h₂
    exact hout x h₂

end Move

/-! ## The call -/

theorem remove_accepted {start size : U32} (h : a.remove start size = .ok a') : ¬ a.rejects start size := by
  intro hrej
  rw [remove, if_pos hrej] at h
  cases h

theorem Resized.remapped_iff {flags newAddr : U32} (h : mem.space.WellFormed)
    (hfits : oldAddr.toNat + oldSize.toNat ≤ mem.space.max.toNat) (hsize : oldSize ≠ 0)
    (hcov : CoveredWith mem.space m.prot oldAddr oldSize)
    (hplace : if StaysPut mem m oldAddr oldSize newSize then r.1 = oldAddr
      else r.1 = remapTarget mem.space newSize flags newAddr ∧ r.1 ≠ oldAddr)
    (hr : Resized mem m oldAddr oldSize newSize r) :
    Remapped mem r.2 oldAddr r.1 oldSize.toNat newSize.toNat ↔
      RemapKeeps mem m oldAddr oldSize newSize flags newAddr := by
  unfold RemapKeeps
  cases hr with
  | same hsame =>
    subst hsame
    refine iff_of_true (remapped_same hfits hcov) ?_
    rw [if_neg (BitVec.lt_irrefl _)]
    exact fun hmoves => absurd (Or.inl (BitVec.le_refl _)) hmoves
  | shrunk hlt hrem =>
    rw [if_pos hlt]
    exact remapped_shrunk_iff h hfits hcov hlt hrem
  | grown hlt hadd hw =>
    refine iff_of_true (remapped_grown h hcov hfits hlt hadd hw) ?_
    rw [if_neg (BitVec.not_lt.mpr (BitVec.le_of_lt hlt))]
    intro hmoves
    rw [if_neg hmoves] at hplace
    exact absurd rfl hplace.2
  | @moved next moved space space' mem₁ mem₂ hlt hadd hw₁ hw₂ hrem =>
    obtain ⟨hspace, _⟩ := moved_bytes hlt hadd hw₁ hw₂
    rw [hspace] at hrem
    have hold : InRange oldAddr oldSize oldAddr := by
      unfold InRange
      bv_omega
    have hmoves : ¬ StaysPut mem m oldAddr oldSize newSize := by
      intro hput
      rw [if_pos hput] at hplace
      refine moved_disjoint h hcov hadd hold ?_
      unfold InRange
      bv_omega
    rw [if_neg hmoves] at hplace
    rw [if_neg (BitVec.not_lt.mpr (BitVec.le_of_lt hlt)), ← hplace.1,
      remapped_moved_iff h hcov hlt hadd hw₁ hw₂ (remove_accepted hrem) hrem,
      splitsInner_add_iff h hfits hsize hcov hadd]
    constructor
    · intro hnot _ k hk hleft hright
      by_contra hbehind
      exact hnot ⟨k, hk, hleft, hright, hbehind⟩
    · rintro hall ⟨k, hk, hleft, hright, hbehind⟩
      exact hbehind (hall hmoves k hk hleft hright)

/-- A length that is rounded to `0` is never the old length of a success, unless the new
length is rounded to `0` too. -/
theorem Resized.oldSize_ne_zero (h : mem.space.WellFormed)
    (hat : mem.space.mappingAt oldAddr = some m)
    (hnew : newSize ≠ 0) (hr : Resized mem m oldAddr oldSize newSize r) : oldSize ≠ 0 := by
  rintro rfl
  cases hr with
  | same hsame => exact hnew hsame.symm
  | shrunk hlt _ => bv_omega
  | grown hlt hadd _ =>
    -- the range that is added would begin where `m` is
    have hin : InRange (oldAddr + 0) (newSize - 0) oldAddr := by
      unfold InRange
      bv_omega
    rw [h.mappingAt_before_add hadd hin] at hat
    cases hat
  | moved _ _ _ _ hrem => exact remove_accepted hrem (Or.inl rfl)

/-- An `mremap` that returns an address has kept the data exactly under these conditions on the
arguments and on the memory before the call, in which `m` is the mapping at the old address. -/
theorem mremap_iff (readAt : ReadAt) (s : KState) (h : s.mem.space.WellFormed)
    (oldAddr oldLength newLength flags newAddr : U32) :
    let s' := (MappingCall.mremap oldAddr oldLength newLength flags newAddr).run readAt s
    let r := s'.cpu.regs EAX
    ¬ IsErrno r → ∃ m, s.mem.space.mappingAt oldAddr = some m ∧
      (Remapped s.mem s'.mem oldAddr r (roundUp oldLength) (roundUp newLength) ↔
        newLength ≠ 0xfffff001 ∧
          RemapKeeps s.mem m oldAddr (BitVec.ofNat 32 (roundUp oldLength))
            (BitVec.ofNat 32 (roundUp newLength)) flags newAddr) := by
  intro s' r hok
  obtain ⟨oldSize, newSize, m, hold, hnew, hfits, hat, hcov, hplace, hresized⟩ :=
    mremap_cases h oldAddr oldLength newLength flags newAddr hok
  refine ⟨m, hat, ?_⟩
  rcases pageLength_spec hnew with ⟨rfl, _⟩ | ⟨hlast, hnewSize, hpage⟩
  · -- no range of `2^32` bytes is inside the space
    refine iff_of_false ?_ ?_
    · intro hre
      have hroom := hre.fits
      have hround : roundUp 0xfffff001 = 2 ^ 32 := by decide
      omega
    · rintro ⟨hne, _⟩
      exact hne rfl
  · have hne := hresized.oldSize_ne_zero h hat (by bv_omega)
    rcases pageLength_spec hold with ⟨_, hzero⟩ | ⟨_, holdSize, _⟩
    · exact absurd hzero hne
    · rw [← holdSize, ← hnewSize, BitVec.ofNat_toNat, BitVec.ofNat_toNat, BitVec.setWidth_eq,
        BitVec.setWidth_eq]
      exact (hresized.remapped_iff h hfits hne hcov hplace).trans
        ⟨fun hk => ⟨hlast, hk⟩, fun hk => hk.2⟩

/-- The first region of `guarded` grows to five pages, and has to move. -/
def growFirst : MappingCall := .mremap 0x1000 0x3000 0x5000 1 0

theorem mremap_iff_growFirst :
    let s' := growFirst.run (fun _ _ _ _ => ([], none)) guarded
    s'.cpu.regs EAX = 0x8000 ∧ Remapped guarded.mem s'.mem 0x1000 0x8000 0x3000 0x5000 := by
  have hr : (growFirst.run (fun _ _ _ _ => ([], none)) guarded).cpu.regs EAX = 0x8000 := by
    decide +kernel
  have hiff := mremap_iff (fun _ _ _ _ => ([], none)) guarded twoRegions_wellFormed
    0x1000 0x3000 0x5000 1 0
  obtain ⟨m, -, hok⟩ := hiff (show ¬ IsErrno ((growFirst.run _ guarded).cpu.regs EAX) by rw [hr]; decide)
  have hre := hok.mpr ⟨by decide, by unfold RemapKeeps; rw [if_neg (by decide)]; intro _; decide⟩
  rw [show ((MappingCall.mremap 0x1000 0x3000 0x5000 1 0).run _ guarded).cpu.regs EAX = _ from hr]
    at hre
  exact ⟨hr, hre⟩

/-- The first two pages of the first region become one: the second region is unmapped. -/
theorem mremap_shrink_loses_region :
    let s' := (MappingCall.mremap 0x1000 0x2000 0x1000 0 0).run (fun _ _ _ _ => ([], none)) guarded
    guarded.mem.space.WellFormed ∧ s'.cpu.regs EAX = 0x1000 ∧
      ¬ Remapped guarded.mem s'.mem 0x1000 0x1000 0x2000 0x1000 := by
  refine ⟨twoRegions_wellFormed, by decide +kernel, ?_⟩
  intro hre
  have hkept := hre.tableKept 0x5000 (by unfold InSpan; decide) (by unfold InSpan; decide)
  exact absurd hkept (by decide +kernel)

end IshGo.Kernel
