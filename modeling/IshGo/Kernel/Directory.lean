/-
# `IshGo.Kernel.Directory` — listing a directory

`getdents64` of `internal/kernel/syscall.go`, with `Readdirnames` of the handles.  The host keeps
for an open directory the names that it has not returned yet; `Readdirnames(-1)` returns them all
and leaves none.
-/
import IshGo.I386.Access
import IshGo.Kernel.State
import IshGo.Lib.Records

namespace IshGo.Kernel

open I386 Lib List

variable {count : U32} {name : List U8} {names : List (List U8)}

/-! ## The host's directories -/

/-- A task and the host files it can have open: of each the names that `Readdirnames` has not
returned yet, or the error if it is no directory. -/
structure DirState where
  task : KState
  streams : Nat → Except IOErr (List (List U8))

/-- `Readdirnames(-1)` -/
def readdirnames (s : DirState) : Handle → (List (List U8) × Option IOErr) × DirState
  | .file id =>
    if s.task.objs.fileClosed id then (([], some .closed), s)
    else
      match s.streams id with
      | .error e => (([], some e), s)
      | .ok names => ((names, none), { s with streams := Function.update s.streams id (.ok []) })
  | .virtual _ | .null | .zero | .tty _ | .pipe _ => (([], some .invalid), s)

/-! ## Records -/

/-- `reclen`: with the name's zero, rounded up to a multiple of eight. -/
def reclen (name : List U8) : Nat :=
  let n := 24 + name.length + 1
  n + 7 - (n + 7) % 8

/-- `entry` of the loop: the inode and the offset are the index plus one, the type is `0`. -/
def dirent (i : Nat) (name : List U8) : List U8 :=
  leBytes (BitVec.ofNat 64 (i + 1)) 8 ++ leBytes (BitVec.ofNat 64 (i + 1)) 8 ++
    leBytes (BitVec.ofNat 16 (reclen name)) 2 ++ [0] ++ name ++
    replicate (reclen name - 19 - name.length) 0

/-- The loop of `getdents64`, with the capacity of the buffer, the index and the buffer. -/
def direntLoop (cap : Nat) : Nat → List U8 → List (List U8) → List U8
  | _, buf, [] => buf
  | i, buf, name :: entries =>
    if buf.length + reclen name > cap then buf
    else direntLoop cap (i + 1) (buf ++ dirent i name) entries

/-- `getdents64` -/
def getdents64 (fd : Int) (addr count : U32) (s : DirState) : DirState :=
  match s.task.entry fd with
  | none => { s with task := s.task.ret ebadf }
  | some f =>
    let ((entries, err), s) := readdirnames s f
    if err ≠ none ∧ err ≠ some .eof then { s with task := s.task.ret efault }
    else
      let buf := direntLoop (capCount count) 0 [] entries
      match s.task.mem.writeBytes addr buf with
      | .error _ => { s with task := s.task.ret efault }
      | .ok mem => { s with task := { s.task with mem := mem }.ret (BitVec.ofNat 32 buf.length) }

/-! ## What a program reads -/

/-- A record at the beginning of `bytes`: its name, and what comes after it. -/
def parseDirent (bytes : List U8) : Option (List U8 × List U8) :=
  let n := (leValue 16 ((bytes.drop 16).take 2)).toNat
  if n = 0 ∨ bytes.length < n then none
  else some (((bytes.take n).drop 19).takeWhile (· ≠ 0), bytes.drop n)

/-- The names in the records at the beginning of `bytes`. -/
def parseDirents (bytes : List U8) : List (List U8) := readAll parseDirent bytes.length bytes

structure FileName where
  bytes : List U8
  noZero : 0 ∉ bytes
  short : bytes.length ≤ 255

open FileName

def recordsLength (names : List FileName) : Nat := (names.map fun n => reclen n.bytes).sum

section Records
variable (name : List U8) (i : Nat)

theorem le_reclen : 25 + name.length ≤ reclen name := by
  unfold reclen
  dsimp only
  omega

theorem reclen_le : reclen name ≤ 32 + name.length := by
  unfold reclen
  dsimp only
  omega

theorem length_dirent : (dirent i name).length = reclen name := by
  have hle := le_reclen name
  simp only [dirent, length_append, length_leBytes, length_singleton, length_replicate]
  omega

end Records

/-- A name that a record can hold: without a zero, and its record's length fits into 16 bits. -/
def Recordable (name : List U8) : Prop := 0 ∉ name ∧ reclen name < 2 ^ 16

theorem recordable (h0 : 0 ∉ name) (hlen : name.length < 65500) : Recordable name := by
  have hle := reclen_le name
  exact ⟨h0, by omega⟩

theorem FileName.recordable (n : FileName) : Recordable n.bytes := by
  have hshort := n.short
  exact Kernel.recordable n.noZero (by omega)

def parseRecord (bytes : List U8) : Option ((Nat × List U8) × List U8) :=
  (parseDirent bytes).map fun r => (((leValue 16 ((bytes.drop 16).take 2)).toNat, r.1), r.2)

theorem reads_record (i : Nat) (h : Recordable name) :
    Reads parseDirent (dirent i name) name ∧ Reads parseRecord (dirent i name) (reclen name, name) := by
  have hlen := length_dirent name i
  have hmin := le_reclen name
  -- the two bytes at 16 say the length
  have hreclen : ∀ rest, (leValue 16 (((dirent i name ++ rest).drop 16).take 2)).toNat = reclen name := by
    intro rest
    have hsplit : dirent i name ++ rest =
        (leBytes (BitVec.ofNat 64 (i + 1)) 8 ++ leBytes (BitVec.ofNat 64 (i + 1)) 8) ++
          (leBytes (BitVec.ofNat 16 (reclen name)) 2 ++ ([0] ++ name ++
            replicate (reclen name - 19 - name.length) 0 ++ rest)) := by
      simp only [dirent, append_assoc]
    rw [hsplit, drop_left' (by simp), take_left' (by simp), leValue_leBytes (by decide)]
    exact toNat_ofNat_of_lt h.2
  -- the name begins at 19 and ends with a zero
  have hname : ((dirent i name).drop 19).takeWhile (· ≠ 0) = name := by
    have hsplit : dirent i name =
        (leBytes (BitVec.ofNat 64 (i + 1)) 8 ++ leBytes (BitVec.ofNat 64 (i + 1)) 8 ++
          leBytes (BitVec.ofNat 16 (reclen name)) 2 ++ [0]) ++
          (name ++ replicate (reclen name - 19 - name.length) 0) := by
      simp only [dirent, append_assoc]
    have hbytes : ∀ b ∈ name, decide (b ≠ 0) = true := by
      intro b hb
      exact decide_eq_true fun heq => h.1 (heq ▸ hb)
    rw [hsplit, drop_left' (by simp), takeWhile_append_of_pos hbytes, takeWhile_replicate]
    simp
  have hdirent : Reads parseDirent (dirent i name) name := by
    intro rest
    have hpast : ¬ (reclen name = 0 ∨ (dirent i name ++ rest).length < reclen name) := by
      rw [length_append, hlen]
      omega
    unfold parseDirent
    rw [hreclen, if_neg hpast, take_left' hlen, drop_left' hlen, hname]
  refine ⟨hdirent, fun rest => ?_⟩
  rw [parseRecord, hdirent rest, hreclen]
  rfl

def dirents (i : Nat) (names : List (List U8)) : List (List U8) :=
  (names.zipIdx i).map fun p => dirent p.2 p.1

theorem dirents_cons (i : Nat) (name : List U8) (names : List (List U8)) :
    dirents i (name :: names) = dirent i name :: dirents (i + 1) names := rfl

theorem length_flatten_dirents (names : List (List U8)) :
    ∀ i, (dirents i names).flatten.length = (names.map reclen).sum := by
  induction names with
  | nil => exact fun _ => rfl
  | cons name names ih =>
    intro i
    rw [dirents_cons, flatten_cons, length_append, length_dirent, ih, map_cons, sum_cons]

theorem direntLoop_eq {cap : Nat} (entries : List (List U8)) : ∀ {i : Nat} {buf : List U8},
    buf.length ≤ cap →
    direntLoop cap i buf entries =
      buf ++ (dirents i (fitting reclen (cap - buf.length) entries)).flatten := by
  induction entries with
  | nil => exact fun _ => (append_nil _).symm
  | cons name entries ih =>
    intro i buf hbuf
    rcases Nat.lt_or_ge cap (buf.length + reclen name) with h | h
    · rw [direntLoop, if_pos h, fitting_cons_of_lt (by omega)]
      exact (append_nil _).symm
    have hroom : cap - (buf ++ dirent i name).length = cap - buf.length - reclen name := by
      rw [length_append, length_dirent]
      omega
    rw [direntLoop, if_neg (Nat.not_lt.mpr h), ih (by rw [length_append, length_dirent]; exact h),
      hroom, fitting_cons_of_le (by omega), dirents_cons, flatten_cons, append_assoc]

section Parsed
variable {α : Type} {parse : List U8 → Option (α × List U8)} {value : List U8 → α}

theorem forall₂_reads_dirents (h : ∀ n ∈ names, ∀ i, Reads parse (dirent i n) (value n)) :
    ∀ i, List.Forall₂ (Reads parse) (dirents i names) (names.map value) := by
  induction names with
  | nil => exact fun _ => .nil
  | cons n names ih =>
    intro i
    exact .cons (h n mem_cons_self i) (ih (fun m hm => h m (mem_cons_of_mem n hm)) (i + 1))

theorem readAll_dirents (hend : parse [] = none)
    (h : ∀ n ∈ names, ∀ i, Reads parse (dirent i n) (value n)) (i : Nat) :
    readAll parse (dirents i names).flatten.length (dirents i names).flatten = names.map value := by
  refine readAll_flatten hend (forall₂_reads_dirents h i) ?_
  rw [length_flatten_dirents, dirents, length_map, length_zipIdx]
  clear h
  induction names with
  | nil => exact Nat.zero_le _
  | cons n names ih =>
    have hmin := le_reclen n
    rw [map_cons, sum_cons, length_cons]
    omega

end Parsed

/-! ## A call -/

/-- Descriptor `fd` is an open directory that has these names left. -/
structure DirState.Lists (s : DirState) (fd : Int) (id : Nat) (names : List FileName) : Prop where
  entry : s.task.entry fd = some (.file id)
  isOpen : s.task.objs.fileClosed id = false
  stream : s.streams id = .ok (names.map bytes)

def Accessible (mem : Memory) (addr count : U32) : Prop :=
  ∀ bytes : List U8, bytes.length ≤ count.toNat → ∃ mem', mem.writeBytes addr bytes = .ok mem'

/-- What a program has of a call: the size of its buffer, the result, and the names in the
records. -/
structure Reply where
  count : U32
  value : U32
  names : List (List U8)
  deriving DecidableEq, Repr

/-- The reply that a program finds in `s` after a call. -/
def DirState.reply (s : DirState) (addr count : U32) : Reply :=
  let value := s.task.cpu.regs EAX
  ⟨count, value, parseDirents (loadBytes s.task.mem.data addr value.toNat)⟩

def delivered (count : U32) (names : List FileName) : List FileName :=
  fitting (fun n => reclen n.bytes) (capCount count) names

theorem capCount_le (count : U32) : capCount count ≤ count.toNat := by
  unfold capCount
  split
  · exact Nat.le_of_lt ‹_›
  · exact Nat.le_refl _

theorem capCount_eq_min (count : U32) : capCount count = min count.toNat (2 ^ 20) := by
  unfold capCount
  split
  · exact (Nat.min_eq_right (Nat.le_of_lt ‹_›)).symm
  · exact (Nat.min_eq_left (Nat.not_lt.mp ‹_›)).symm

theorem capCount_lt (count : U32) : capCount count < 2 ^ 32 :=
  Nat.lt_of_le_of_lt (capCount_le count) count.isLt

section Call
variable {s : DirState} {fd : Int} {id : Nat} {names : List FileName} {addr count : U32}

theorem getdents64_eq {entries : List (List U8)} (hentry : s.task.entry fd = some (.file id))
    (hopen : s.task.objs.fileClosed id = false) (hstream : s.streams id = .ok entries)
    (ha : Accessible s.task.mem addr count) :
    let bytes := (dirents 0 (fitting reclen (capCount count) entries)).flatten
    getdents64 fd addr count s =
      { task := { s.task with mem := { s.task.mem with data := storeBytes s.task.mem.data addr bytes } }.ret
          (BitVec.ofNat 32 bytes.length)
        streams := Function.update s.streams id (.ok []) } := by
  intro bytes
  have hfits : bytes.length ≤ capCount count := by
    rw [length_flatten_dirents]
    exact sum_fitting_le entries _
  have hle := capCount_le count
  have hlt := capCount_lt count
  obtain ⟨mem, hw⟩ := ha bytes (by omega)
  obtain rfl := Memory.writeBytes_result hw (by omega)
  have hread : readdirnames s (.file id) =
      ((entries, none), { s with streams := Function.update s.streams id (.ok []) }) := by
    show (if s.task.objs.fileClosed id then _ else _) = _
    rw [hopen, if_neg Bool.false_ne_true, hstream]
  have hloop : direntLoop (capCount count) 0 [] entries = bytes := direntLoop_eq entries (Nat.zero_le _)
  unfold getdents64
  rw [hentry]
  dsimp only
  rw [hread]
  rw [if_neg (fun herr => herr.1 rfl), hloop, hw]

/-- The bytes of a call's records are where the program looks for them. -/
theorem loadBytes_records (entries : List (List U8)) (data : U32 → U8) :
    let bytes := (dirents 0 (fitting reclen (capCount count) entries)).flatten
    loadBytes (storeBytes data addr bytes) addr (BitVec.ofNat 32 bytes.length).toNat = bytes := by
  intro bytes
  have hfits : bytes.length ≤ capCount count := by
    rw [length_flatten_dirents]
    exact sum_fitting_le entries _
  have hlt := capCount_lt count
  rw [toNat_ofNat_of_lt (by omega), loadBytes_storeBytes (by omega)]

theorem getdents64_delivers (h : s.Lists fd id names) (ha : Accessible s.task.mem addr count) :
    (getdents64 fd addr count s).Lists fd id [] ∧
      (getdents64 fd addr count s).reply addr count =
        ⟨count, BitVec.ofNat 32 (recordsLength (delivered count names)),
          (delivered count names).map bytes⟩ := by
  have hfit : fitting reclen (capCount count) (names.map bytes) =
      (delivered count names).map bytes := fitting_map ..
  have hnames : ∀ n ∈ (delivered count names).map bytes, ∀ i, Reads parseDirent (dirent i n) n := by
    intro n hn i
    obtain ⟨name, -, rfl⟩ := mem_map.mp hn
    exact (reads_record i name.recordable).1
  rw [getdents64_eq h.entry h.isOpen h.stream ha]
  refine ⟨⟨h.entry, h.isOpen, Function.update_self ..⟩, ?_⟩
  show (⟨count, BitVec.ofNat 32 _, parseDirents (loadBytes (storeBytes s.task.mem.data addr _) addr
    (BitVec.ofNat 32 _).toNat)⟩ : Reply) = _
  have hparse := readAll_dirents rfl hnames 0
  rw [map_id'] at hparse
  rw [loadBytes_records, parseDirents, hfit, hparse, length_flatten_dirents, map_map]
  rfl

/-- A call writes records that read back as the names that fit into the buffer or, if that is larger,
into its first MiB, in that order and no others, and writes nothing outside of the buffer. -/
theorem getdents64_parses {names : List (List U8)} (hentry : s.task.entry fd = some (.file id))
    (hopen : s.task.objs.fileClosed id = false) (hstream : s.streams id = .ok names)
    (hnames : ∀ n ∈ names, 0 ∉ n ∧ n.length < 65500) (ha : Accessible s.task.mem addr count) :
    let t := (getdents64 fd addr count s).task
    let value := (t.cpu.regs EAX).toNat
    let records := readAll parseRecord value (loadBytes t.mem.data addr value)
    let got := records.map Prod.snd
    got = parseDirents (loadBytes t.mem.data addr value) ∧
    (got <+: names ∧ (got.map reclen).sum ≤ capCount count ∧
      ∀ before, before <+: names → (before.map reclen).sum ≤ capCount count → before <+: got) ∧
    capCount count = min count.toNat (2 ^ 20) ∧
    (∀ r ∈ records, 8 ∣ r.1 ∧ r.1 = reclen r.2) ∧ (records.map Prod.fst).sum = value ∧ value ≤ count.toNat ∧
    ∀ x, (∀ i < count.toNat, x ≠ addr + BitVec.ofNat 32 i) → t.mem.data x = s.task.mem.data x := by
  have hinit : fitting reclen (capCount count) names <+: names := fitting_initial names _
  have hrecord : ∀ n ∈ fitting reclen (capCount count) names, Recordable n := fun n hn =>
    recordable (hnames n (hinit.subset hn)).1 (hnames n (hinit.subset hn)).2
  have hsum := @sum_fitting_le _ reclen names (capCount count)
  have hle := capCount_le count
  have hlt := capCount_lt count
  rw [getdents64_eq hentry hopen hstream ha]
  intro t value records got
  have hvalue : value = ((fitting reclen (capCount count) names).map reclen).sum := by
    rw [← length_flatten_dirents _ 0]
    refine toNat_ofNat_of_lt ?_
    rw [length_flatten_dirents]
    omega
  have hload : loadBytes t.mem.data addr value = (dirents 0 (fitting reclen (capCount count) names)).flatten :=
    loadBytes_records names _
  have hlength : value = (dirents 0 (fitting reclen (capCount count) names)).flatten.length :=
    hvalue.trans (length_flatten_dirents _ 0).symm
  have hrecords : records = (fitting reclen (capCount count) names).map fun n => (reclen n, n) := by
    have hparse := @readAll_dirents _ _ parseRecord (fun n => (reclen n, n)) rfl
      (fun n hn i => (reads_record i (hrecord n hn)).2) 0
    rwa [← hlength, ← hload] at hparse
  have hgot : got = fitting reclen (capCount count) names := by
    rw [show got = records.map Prod.snd from rfl, hrecords, map_map]
    exact map_id _
  have hdirents : parseDirents (loadBytes t.mem.data addr value) = fitting reclen (capCount count) names := by
    have hparse := @readAll_dirents _ _ parseDirent (fun n => n) rfl
      (fun n hn i => (reads_record i (hrecord n hn)).1) 0
    rwa [map_id', ← hload] at hparse
  refine ⟨hgot.trans hdirents.symm, ?_, capCount_eq_min count, ?_, ?_, by omega, ?_⟩
  · rw [hgot]
    exact ⟨hinit, hsum, fun before => fitting_longest⟩
  · intro r hr
    rw [hrecords] at hr
    obtain ⟨n, -, rfl⟩ := mem_map.mp hr
    exact ⟨by simp only [reclen]; omega, rfl⟩
  · rw [hrecords, map_map, hvalue]
    rfl
  · intro x hx
    refine storeBytes_of_outside fun i hi => hx i ?_
    omega

end Call

/-! ## Listings -/

/-- Between two calls everything may happen that leaves the descriptor and the directory alone. -/
structure DirState.SameDir (fd : Int) (id : Nat) (s t : DirState) : Prop where
  entry : t.task.entry fd = s.task.entry fd
  isOpen : t.task.objs.fileClosed id = s.task.objs.fileClosed id
  stream : t.streams id = s.streams id

def listed (replies : List Reply) : List (List U8) := replies.flatMap Reply.names

/-- A sequence of calls on a descriptor that begins with an open directory, with their replies.
Each buffer is accessible and holds at least the first record that has not been delivered. -/
inductive Listing (fd : Int) (id : Nat) (names : List FileName) : DirState → List Reply → Prop
  | start {s : DirState} : s.Lists fd id names → Listing fd id names s []
  | between {s t : DirState} {rs : List Reply} :
      Listing fd id names s rs → s.SameDir fd id t → Listing fd id names t rs
  | call {s : DirState} {rs : List Reply} (addr count : U32) :
      Listing fd id names s rs → Accessible s.task.mem addr count →
      (∀ n ∈ (names.drop (listed rs).length).head?, reclen n.bytes ≤ count.toNat) →
      Listing fd id names (getdents64 fd addr count s)
        (rs ++ [(getdents64 fd addr count s).reply addr count])

theorem DirState.Lists.sameDir {s t : DirState} {fd : Int} {id : Nat} {names : List FileName}
    (h : s.Lists fd id names) (hst : s.SameDir fd id t) : t.Lists fd id names :=
  ⟨hst.entry.trans h.entry, hst.isOpen.trans h.isOpen, hst.stream.trans h.stream⟩

theorem reclen_le_capCount {n : FileName} (h : reclen n.bytes ≤ count.toNat) :
    reclen n.bytes ≤ capCount count := by
  have hlt := n.recordable.2
  unfold capCount
  split
  · exact Nat.le_trans (Nat.le_of_lt hlt) (by decide)
  · exact h

/-- A buffer for the first record at least: something is delivered if there is something. -/
theorem recordsLength_delivered_eq_zero {names : List FileName}
    (h : ∀ n ∈ names.head?, reclen n.bytes ≤ count.toNat) :
    BitVec.ofNat 32 (recordsLength (delivered count names)) = 0 ↔ names = [] := by
  have hfits : recordsLength (delivered count names) ≤ capCount count := sum_fitting_le names _
  have hlt := capCount_lt count
  cases names with
  | nil => exact iff_of_true rfl rfl
  | cons n names =>
    refine iff_of_false (fun hzero => ?_) (cons_ne_nil n names)
    have hvalue := congrArg BitVec.toNat hzero
    rw [toNat_ofNat_of_lt (by omega)] at hvalue
    have hfirst := reclen_le_capCount (h n rfl)
    rw [delivered, @fitting_cons_of_le FileName (fun n => reclen n.bytes) _ _ _ hfirst, recordsLength, map_cons, sum_cons] at hvalue
    have hmin := le_reclen n.bytes
    have hzero' : (0 : U32).toNat = 0 := rfl
    omega

section Run
variable {s : DirState} {fd : Int} {id : Nat} {names : List FileName} {rs : List Reply}

/-- A call before the first one, or after it: then no name is left, the first reply is what its
buffer held, and all others are empty. -/
theorem listing_cases (h : Listing fd id names s rs) :
    (rs = [] ∧ s.Lists fd id names) ∨
      ∃ r rest, rs = r :: rest ∧ s.Lists fd id [] ∧
        r = ⟨r.count, BitVec.ofNat 32 (recordsLength (delivered r.count names)),
          (delivered r.count names).map bytes⟩ ∧
        (∀ n ∈ names.head?, reclen n.bytes ≤ r.count.toNat) ∧
        ∀ q ∈ rest, q.value = 0 ∧ q.names = [] := by
  induction h with
  | start hs => exact .inl ⟨rfl, hs⟩
  | between _ hst ih =>
    rcases ih with ⟨hrs, hs⟩ | ⟨r, rest, hrs, hs, hr, hhead, hrest⟩
    · exact .inl ⟨hrs, hs.sameDir hst⟩
    · exact .inr ⟨r, rest, hrs, hs.sameDir hst, hr, hhead, hrest⟩
  | call addr count _ ha hbig ih =>
    rcases ih with ⟨rfl, hs⟩ | ⟨r, rest, rfl, hs, hr, hhead, hrest⟩
    · obtain ⟨hafter, hreply⟩ := getdents64_delivers hs ha
      refine .inr ⟨_, [], nil_append _, hafter, ?_, ?_, fun q hq => absurd hq not_mem_nil⟩
      · rw [hreply]
      · exact hbig
    obtain ⟨hafter, hreply⟩ := getdents64_delivers hs ha
    refine .inr ⟨r, rest ++ [_], cons_append, hafter, hr, hhead, fun q hq => ?_⟩
    rcases mem_append.mp hq with hq | hq
    · exact hrest q hq
    · rw [mem_singleton.mp hq, hreply]
      exact ⟨rfl, rfl⟩

/-- **Listing a directory.**  The first call returns `0` exactly if there are no names, and every
other call returns `0`.  The names in the replies are the names of the directory, each once, exactly
if the first buffer holds all the records. -/
theorem listing_complete_iff {r : Reply} {rest : List Reply} (h : Listing fd id names s (r :: rest)) :
    (r.value = 0 ↔ names = []) ∧ (∀ q ∈ rest, q.value = 0) ∧
      ((listed (r :: rest)).Perm (names.map bytes) ↔ recordsLength names ≤ capCount r.count) := by
  rcases listing_cases h with ⟨hnil, -⟩ | ⟨r', rest', heq, -, hr, hhead, hrest⟩
  · exact absurd hnil (cons_ne_nil r rest)
  cases heq
  have hlisted : listed (r :: rest) = (delivered r.count names).map bytes := by
    have hempty : rest.flatMap Reply.names = [] := flatMap_eq_nil_iff.mpr fun q hq => (hrest q hq).2
    rw [listed, flatMap_cons, hempty, append_nil, congrArg Reply.names hr]
  refine ⟨?_, fun q hq => (hrest q hq).1, ?_⟩
  · rw [congrArg Reply.value hr]
    exact recordsLength_delivered_eq_zero hhead
  rw [hlisted, recordsLength, ← fitting_eq_self_iff]
  constructor
  · intro hperm
    have hlen : (delivered r.count names).length = names.length := by simpa using hperm.length_eq
    exact (fitting_initial names _).eq_of_length hlen
  · intro hall
    rw [delivered, hall]

end Run

/-! ## A directory with two names -/

def nameA : FileName := ⟨[97], by decide, by decide⟩
def nameB : FileName := ⟨[98], by decide, by decide⟩

/-- Descriptor 3 is a directory with the names `a` and `b`. -/
def openDir : DirState :=
  { task :=
      { KState.new true none CPU.new (Memory.new 4096) Objects.new.newFile.2 with
        files := { Files.new with fds := Files.new.fds.insert 3 (.file 0) } }
    streams := fun _ => .ok [nameA.bytes, nameB.bytes] }

theorem openDir_lists : openDir.Lists 3 0 [nameA, nameB] := ⟨by decide, rfl, rfl⟩

theorem accessible_of_unprotected {mem : Memory} (hp : mem.isProtected = false) {addr : U32}
    (hfits : addr.toNat + count.toNat ≤ mem.size.toNat) : Accessible mem addr count := by
  intro bytes hbytes
  exact ⟨_, Memory.writeBytes_unprotected hp (by omega)⟩

def twoCalls (count : U32) : DirState := getdents64 3 0 count (getdents64 3 0 count openDir)

theorem twoCalls_listing (hmin : 32 ≤ count.toNat) (hmax : count.toNat ≤ 4096)
    (hp : (getdents64 3 0 count openDir).task.mem.isProtected = false)
    (hsize : (getdents64 3 0 count openDir).task.mem.size = 4096) :
    Listing 3 0 [nameA, nameB] (twoCalls count)
      [(getdents64 3 0 count openDir).reply 0 count, (twoCalls count).reply 0 count] := by
  have hshort : ∀ k, ∀ n ∈ ([nameA, nameB].drop k).head?, reclen n.bytes ≤ count.toNat := by
    intro k n hn
    have hmem : n ∈ [nameA, nameB] := mem_of_mem_drop (mem_of_mem_head? hn)
    rcases mem_cons.mp hmem with rfl | hmem
    · exact hmin
    · rw [mem_singleton.mp hmem]
      exact hmin
  have hfits : (0 : U32).toNat + count.toNat ≤ (4096 : U32).toNat := (Nat.zero_add _).trans_le hmax
  have hfirst := Listing.call 0 count (.start openDir_lists) (accessible_of_unprotected rfl hfits) (hshort _)
  exact .call 0 count hfirst (accessible_of_unprotected hp (hsize.symm ▸ hfits)) (hshort _)

/-- With buffers of 64 bytes both names are listed. -/
theorem listing_complete_iff_two :
    (listed [(getdents64 3 0 64 openDir).reply 0 64, (twoCalls 64).reply 0 64]).Perm
      [nameA.bytes, nameB.bytes] := by
  have hrun := @twoCalls_listing 64 (by decide) (by decide) (by decide +kernel) (by decide +kernel)
  exact (listing_complete_iff hrun).2.2.mpr (by decide)

/-- With buffers of 32 bytes, which hold either record, `a` is listed and the next call returns
`0`. -/
theorem listing_loses_name :
    ∃ s, Listing 3 0 [nameA, nameB] s [⟨32, 32, [nameA.bytes]⟩, ⟨32, 0, []⟩] := by
  have hrun := @twoCalls_listing 32 (by decide) (by decide) (by decide +kernel) (by decide +kernel)
  have hfirst : (getdents64 3 0 32 openDir).reply 0 32 = ⟨32, 32, [nameA.bytes]⟩ := by decide +kernel
  have hsecond : (twoCalls 32).reply 0 32 = ⟨32, 0, []⟩ := by decide +kernel
  exact ⟨twoCalls 32, hrun⟩

theorem getdents64_parses_two : ((getdents64 3 0 64 openDir).reply 0 64).names = [nameA.bytes, nameB.bytes] := by
  obtain ⟨hgot, ⟨hinit, -, hall⟩, -⟩ := @getdents64_parses openDir 3 0 0 64 [nameA.bytes, nameB.bytes]
    openDir_lists.entry rfl rfl (by decide) (accessible_of_unprotected rfl (by decide))
  have hfull := hall _ (prefix_refl _) (by decide)
  exact hgot.symm.trans (hinit.eq_of_length (Nat.le_antisymm hinit.length_le hfull.length_le))

/-- A directory with the name `a`, often. -/
def manyNames : DirState :=
  { task := { openDir.task with mem := Memory.new 0x200000 }
    streams := fun _ => .ok (replicate 32769 nameA.bytes) }

/-- The records of all names fit into the buffer, and they are not all delivered. -/
theorem getdents64_stops_early :
    Accessible manyNames.task.mem 0 0x200000 ∧
    ((replicate 32769 nameA.bytes).map reclen).sum ≤ (0x200000 : U32).toNat ∧
    ((getdents64 3 0 0x200000 manyNames).reply 0 0x200000).names ≠ replicate 32769 nameA.bytes := by
  have hsum : ((replicate 32769 nameA.bytes).map reclen).sum = 32769 * 32 := by
    rw [map_replicate, sum_replicate]
    rfl
  have ha : Accessible manyNames.task.mem 0 0x200000 := accessible_of_unprotected rfl (by decide)
  refine ⟨ha, by rw [hsum]; decide, fun hall => ?_⟩
  have hlists : manyNames.Lists 3 0 (replicate 32769 nameA) := ⟨by decide, rfl, by rw [map_replicate]; rfl⟩
  rw [(getdents64_delivers hlists ha).2] at hall
  have hfit : fitting reclen (capCount 0x200000) ((replicate 32769 nameA).map bytes) = _ :=
    (fitting_map ..).trans hall
  rw [map_replicate, fitting_eq_self_iff, hsum] at hfit
  exact absurd hfit (by decide)

end IshGo.Kernel
